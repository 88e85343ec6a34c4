import Cytrus.Kernel.VMManagerSpec

/-!
# What the calls do to the function an address space denotes

Every call that changes attributes acts on the cells of its range by one
function on cells and leaves all other cells alone. The range calls prove
this with a loop invariant that names the address the loop has come to; an
area that is swallowed by a merge before its visit already has the attributes
the visit would give it.
-/

namespace Cytrus.Kernel.VMManager

open Support Support.OrderedMap Support.Segment Memory
open VirtualMemoryArea (start_eq length_eq stop_eq extend_base extend_size)
open Exec (post_bind post_assert post_get)

variable {vm vm' : VMManager} {l left right : List VirtualMemoryArea} {v : VirtualMemoryArea}
  {f : VirtualMemoryArea → VirtualMemoryArea} {g : Cell → Cell} {visit : VMAIter → VM VMAIter}
  {target size a : Nat}

/-- A rewrite of areas and the function on cells it stands for. An area that a rewritten one
can absorb is left alone by the function. -/
structure ActsAs (f : VirtualMemoryArea → VirtualMemoryArea) (g : Cell → Cell) : Prop
    extends Keeps f where
  cell : ∀ v a, (f v).cell a = g (v.cell a)
  absorbs : ∀ v n a, (f v).canBeMergedWith n = true → g (n.cell a) = n.cell a

/-- The cell of an address that nothing is mapped at. -/
def freeCell : Cell := ⟨.free, .none, .free, 0⟩

theorem unmapped_actsAs : ActsAs .unmapped fun _ => freeCell where
  base _ := rfl
  size _ := rfl
  cell _ _ := rfl
  absorbs v n a h := by
    obtain ⟨hp, hs, ht, -⟩ := VirtualMemoryArea.canBeMergedWith_iff.mp h
    have hn : n.type = .free := ht.symm
    simp [freeCell, VirtualMemoryArea.cell, VirtualMemoryArea.pointerAt, hn, ← hp, ← hs,
      VirtualMemoryArea.unmapped]

theorem restated_actsAs (newState : MemoryState) (newPerms : VMAPermission) :
    ActsAs (.restated newState newPerms)
      fun c => { c with permissions := newPerms, meminfoState := newState } where
  base _ := rfl
  size _ := rfl
  cell _ _ := rfl
  absorbs v n a h := by
    obtain ⟨hp, hs, -, -⟩ := VirtualMemoryArea.canBeMergedWith_iff.mp h
    simp [VirtualMemoryArea.cell, ← hp, ← hs, VirtualMemoryArea.restated]

theorem reprotected_actsAs (newPerms : VMAPermission) :
    ActsAs (.reprotected newPerms) fun c => { c with permissions := newPerms } where
  base _ := rfl
  size _ := rfl
  cell _ _ := rfl
  absorbs v n a h := by
    obtain ⟨hp, -, -, -⟩ := VirtualMemoryArea.canBeMergedWith_iff.mp h
    simp [VirtualMemoryArea.cell, ← hp, VirtualMemoryArea.reprotected]

theorem mapped_keeps (memory : MemoryRef) (state : MemoryState) :
    Keeps (.mapped memory state) := ⟨fun _ => rfl, fun _ => rfl⟩

/-! ## One visit -/

theorem tiled_onFocus (hf : Keeps f) {z : Zipper} {hi : Nat} (h : Tiled 0 z.areas hi) :
    Tiled 0 (z.onFocus f).areas hi := by
  obtain ⟨mid, hpre, hv, hlen, hpost⟩ := tiled_append.mp h
  refine hpre.append ⟨(hf.base _).trans hv, ?_, ?_⟩
  · simpa [Zipper.onFocus, hf.size] using hlen
  · simpa [Zipper.onFocus, hf.base, hf.size] using hpost

theorem lookup_visit (hf : Keeps f) {z : Zipper} {hi : Nat} (h : Tiled 0 z.areas hi) :
    lookup (z.onFocus f).merge.areas a =
      if z.focus.base ≤ a ∧ a < z.focus.base + z.focus.size then some ((f z.focus).cell a)
      else lookup z.areas a := by
  rw [(z.onFocus f).same_merge.lookup hi (tiled_onFocus hf h)]
  have hone (v : VirtualMemoryArea) (lo : Nat) (hlo : v.base = lo) (hpos : 0 < v.size) :
      Tiled lo [v] (v.base + v.size) := ⟨hlo, hpos, rfl⟩
  obtain ⟨mid, hpre, hv, hlen, -⟩ := tiled_append.mp h
  simp only [start_eq, length_eq] at hv hlen
  have hnew : Tiled mid [f z.focus] (z.focus.base + z.focus.size) := by
    have hb := hf.base z.focus
    have hs := hf.size z.focus
    exact hb ▸ hs ▸ hone (f z.focus) mid (hb.trans hv) (by omega)
  have hreplace : lookup (z.left.reverse ++ ([f z.focus] ++ z.right)) a = _ :=
    hpre.lookup_replace (hone z.focus mid hv hlen) hnew (Nat.zero_le a)
  rw [← hv] at hreplace
  refine Eq.trans ?_ (hreplace.trans ?_)
  · rfl
  · by_cases ha : z.focus.base ≤ a ∧ a < z.focus.base + z.focus.size
    · rw [if_pos ha, if_pos ha]
      exact lookup_area_of_lt (by rw [hf.base, hf.size]; exact ha.2)
    · rw [if_neg ha, if_neg ha]
      rfl

/-! ## The range loop -/

/-- Where the loop has come to: the cells of the range below `m` are rewritten. -/
def Swept (g : Cell → Cell) (old : Nat → Option Cell) (target targetEnd : Nat)
    (left right : List VirtualMemoryArea) : Prop :=
  EdgeAt targetEnd right ∧ ∃ m, target ≤ m ∧ Tiled m right maxAddress ∧
    ∀ a, lookup (left.reverse ++ right) a =
      if target ≤ a ∧ a < targetEnd ∧ a < m then (old a).map g else old a

theorem merge_right_cases (z : Zipper) :
    z.merge.right = z.right ∨
      ∃ n rest, z.right = n :: rest ∧ z.focus.canBeMergedWith n = true ∧ z.merge.right = rest := by
  have hprev : z.merge.right = z.mergeNext.right := by
    unfold Zipper.merge
    rcases z.mergeNext.mergePrev_cases with ⟨heq, -⟩ | ⟨p, rest, -, -, heq⟩ <;> rw [heq]
  rw [hprev]
  rcases z.mergeNext_cases with ⟨heq, -⟩ | ⟨n, rest, hr, hm, heq⟩
  · exact .inl (by rw [heq])
  · exact .inr ⟨n, rest, hr, hm, by rw [heq]⟩

theorem swept_survives (hf : ActsAs f g) (old : Nat → Option Cell) (target targetEnd : Nat) :
    Survives f targetEnd (Swept g old target targetEnd) := by
  intro left v right htiled hlt ⟨hedge, m, hm, hright, hold⟩
  obtain ⟨hbase, hpos, hrest⟩ := hright
  simp only [start_eq, length_eq,
    stop_eq] at hbase hpos hrest
  have hstop : v.base + v.size ≤ targetEnd := by
    have hstrict := hedge v (by simp)
    omega
  have hlook (a : Nat) := lookup_visit (a := a) hf.toKeeps (z := ⟨left, v, right⟩) htiled
  have hv (a : Nat) (hlo : v.base ≤ a) (hhi : a < v.base + v.size) :
      old a = some (v.cell a) := by
    have hcell := hold a
    rw [if_neg (by omega)] at hcell
    obtain ⟨mid, hpre, hmid, -, -⟩ := tiled_append.mp htiled
    simp only [start_eq] at hmid
    rw [← hcell]
    exact Tiled.lookup_at (e := v) (hmid ▸ hpre) hlo hhi
  -- The new cells at any `m'` that the loop may have come to, absorbed areas included.
  have hcells (m' : Nat) (hm' : v.base + v.size ≤ m')
      (habsorbed : ∀ a, v.base + v.size ≤ a → a < m' → (old a).map g = old a) (a : Nat) :
      lookup (visited f left v right).areas a =
        if target ≤ a ∧ a < targetEnd ∧ a < m' then (old a).map g else old a := by
    refine (hlook a).trans ?_
    change (if v.base ≤ a ∧ a < v.base + v.size then some ((f v).cell a)
      else lookup (left.reverse ++ v :: right) a) = _
    rw [hold a]
    by_cases hin : v.base ≤ a ∧ a < v.base + v.size
    · rw [if_pos hin, if_pos (by omega), hv a hin.1 hin.2, hf.cell]
      rfl
    · rw [if_neg hin]
      by_cases hbelow : a < v.base
      · by_cases hrange : target ≤ a ∧ a < targetEnd
        · rw [if_pos (by omega), if_pos (by omega)]
        · rw [if_neg (by omega), if_neg (by omega)]
      · rw [if_neg (by omega)]
        by_cases hrange : target ≤ a ∧ a < targetEnd ∧ a < m'
        · rw [if_pos hrange, habsorbed a (by omega) hrange.2.2]
        · rw [if_neg hrange]
  have hareas : ((visited f left v right).focus :: (visited f left v right).left).reverse ++
      (visited f left v right).right = (visited f left v right).areas := by
    simp [Zipper.areas]
  rw [Swept, hareas]
  rcases merge_right_cases ⟨left, f v, right⟩ with hr | ⟨n, rest, hr, hmerge, hr'⟩
  · change (visited f left v right).right = right at hr
    rw [hr]
    exact ⟨fun w hw => hedge w (by simp [hw]), v.base + v.size, by omega, hrest,
      hcells _ le_rfl (by omega)⟩
  · change right = n :: rest at hr
    change (visited f left v right).right = rest at hr'
    subst hr
    rw [hr']
    obtain ⟨hnbase, hnpos, hnrest⟩ := hrest
    simp only [start_eq, length_eq,
      stop_eq] at hnbase hnpos hnrest
    refine ⟨fun w hw => hedge w (by simp [hw]), n.base + n.size, by omega, hnrest,
      hcells _ (by omega) ?_⟩
    intro a hlo hhi
    have hcell := hold a
    rw [if_neg (by omega)] at hcell
    obtain ⟨mid, hpre, hmid, hvpos, -⟩ := tiled_append.mp htiled
    simp only [start_eq, length_eq] at hmid hvpos
    have hbefore : Tiled 0 (left.reverse ++ [v]) n.base := by
      refine hpre.append ⟨hmid, hvpos, ?_⟩
      simp [hnbase]
    have hat : lookup ((left.reverse ++ [v]) ++ n :: rest) a = some (n.cell a) :=
      Tiled.lookup_at hbefore (by simpa [hnbase] using hlo) hhi
    rw [List.append_assoc, List.singleton_append, hcell] at hat
    rw [hat, Option.map_some, hf.absorbs v n a hmerge]

/-- Change the cells of a range, each by its address. -/
def onRange (lo hi : Nat) (g : Nat → Cell → Cell) (a : Nat) (c : Option Cell) : Option Cell :=
  if lo ≤ a ∧ a < hi then c.map (g a) else c

/-- What a call that returns does: the map is a tiling again, the lock is as it was, and the
function has changed as `update` says. -/
structure Effect (vm : VMManager) (update : Nat → Option Cell → Option Cell) (vm' : VMManager) :
    Prop where
  wellFormed : vm'.WellFormed
  locked : vm'.isLocked = vm.isLocked
  view : ∀ a, vm'.view a = update a (vm.view a)

section RangeCalls

/-- The invariant holds of the carved areas, from the start of the range on. -/
def Started (l : List VirtualMemoryArea) (target size : Nat)
    (I : List VirtualMemoryArea → List VirtualMemoryArea → Prop) : Prop :=
  ∀ left v right, cutAt (target + size) (cutAt target l) = (Zipper.mk left v right).areas →
    v.base = target → Throughout (fun v => v.type ≠ .free) l target (target + size) →
    Cuttable target l → Cuttable (target + size) (cutAt target l) → I left (v :: right)

variable {I J : List VirtualMemoryArea → List VirtualMemoryArea → Prop}

theorem Survives.and {targetEnd : Nat} (hI : Survives f targetEnd I)
    (hJ : Survives f targetEnd J) :
    Survives f targetEnd fun left right => I left right ∧ J left right :=
  fun left v right ht hlt hinv =>
    ⟨hI left v right ht hlt hinv.1, hJ left v right ht hlt hinv.2⟩

theorem carveLoop_post (hvisit : Visits f visit)
    (hI : Survives f (target + size) I) (hstart : Started l target size I)
    (hu : vm.isLocked = false) (h : vm.Layout l) (hp : Proper target size) :
    (carveVMARange target size >>= forEachUntil visit (add32 target size)).Post vm
      (fun _ vm' => Throughout (fun v => v.type ≠ .free) l target (target + size) ∧
        vm.Ended I (target + size) vm')
      (fun e vm' => vm' = vm ∧ e = .invalidAddressState ∧
        ¬ Throughout (fun v => v.type ≠ .free) l target (target + size))
      (fun f => f = .memoryRefOffset ∧ ∃ v ∈ l, ¬ v.Backed) := by
  have hwrap : add32 target size = target + size :=
    add32_of_lt (lt_of_le_of_lt hp.le_max (by decide))
  rw [post_bind, hwrap]
  refine (carveVMARange_post h hp).mono ?_ (fun _ _ h => h) (fun _ h => h)
  rintro it vm₁ ⟨rfl, hthrough, hcut, hcut', hnow⟩
  have hedge : EdgeAt target (cutAt (target + size) (cutAt target l)) :=
    (edgeAt_cutAt h.tiled target).cutAt _
  obtain ⟨left, v, right, hlist, hbase⟩ :=
    exists_of_edgeAt hnow.layout.tiled hedge (Nat.zero_le _)
      (by have := hp.pos; have := hp.le_max; omega)
  have hlayout := hnow.layout
  rw [hlist] at hlayout
  have hloop := forEachUntil_post hvisit hI (hnow.locked.trans hu) hlayout
    (hstart left v right hlist hbase hthrough hcut hcut')
  simp only [List.head?_cons, Option.map_some, hbase] at hloop
  refine hloop.mono ?_ (fun _ _ h => h.elim) (fun _ h => h.elim)
  rintro _ vm₂ ⟨left', right', hnow', hinv, hend⟩
  exact ⟨hthrough, left', right', hnow.trans hnow', hinv, hend⟩

theorem swept_start (g : Cell → Cell) (h : Tiled 0 l maxAddress) :
    Started l target size (Swept g (lookup l) target (target + size)) := by
  intro left v right hlist hbase _ hcut hcut'
  have htiled := tiled_cutAt (tiled_cutAt h target) (target + size)
  have hedge := edgeAt_cutAt (tiled_cutAt h target) (target + size)
  rw [hlist] at htiled hedge
  refine ⟨fun w hw => hedge w (by simp [Zipper.areas, List.mem_cons.mp hw]), target, le_rfl,
    ?_, ?_⟩
  · obtain ⟨mid, -, hright⟩ := tiled_append.mp htiled
    have hmid : v.base = mid := hright.1
    rwa [← hbase, hmid]
  · intro a
    rw [if_neg (by omega)]
    change lookup (Zipper.mk left v right).areas a = _
    rw [← hlist, lookup_cutAt hcut', lookup_cutAt hcut]

theorem swept_end {g : Cell → Cell} (h : vm.Layout l) (hmax : target + size ≤ maxAddress)
    (hended : vm.Ended (Swept g (lookup l) target (target + size)) (target + size) vm') :
    vm.Effect (onRange target (target + size) fun _ => g) vm' := by
  obtain ⟨left, right, hnow, ⟨-, m, -, hright, hcells⟩, hend⟩ := hended
  have hm : target + size ≤ m := by
    cases right with
    | nil =>
        have heq : m = maxAddress := hright
        omega
    | cons w rest =>
        have hw := hend w (by simp)
        have heq : w.base = m := hright.1
        omega
  refine ⟨hnow.layout.wellFormed, hnow.locked, fun a => ?_⟩
  rw [hnow.layout.view_eq_lookup, hcells, h.view_eq_lookup, onRange]
  by_cases ha : target ≤ a ∧ a < target + size
  · rw [if_pos (by omega), if_pos ha]
  · rw [if_neg (by omega), if_neg ha]

theorem reprotectRange_loop {newPerms : VMAPermission}
    (hI : Survives (.reprotected newPerms) (target + size) I) (hstart : Started l target size I)
    (hu : vm.isLocked = false) (h : vm.Layout l) (hp : Proper target size) :
    (reprotectRange target size newPerms).Post vm
      (fun _ vm' => Throughout (fun v => v.type ≠ .free) l target (target + size) ∧
        vm.Ended I (target + size) vm')
      (fun e vm' => vm' = vm ∧ e = .invalidAddressState ∧
        ¬ Throughout (fun v => v.type ≠ .free) l target (target + size))
      (fun f => f = .memoryRefOffset ∧ ∃ v ∈ l, ¬ v.Backed) := by
  have hf := reprotected_actsAs newPerms
  unfold reprotectRange
  rw [post_bind, post_assertUnlocked hu]
  exact carveLoop_post (unlocked_visits hf.toKeeps) hI hstart hu h hp

theorem reprotectRange_post {newPerms : VMAPermission} (hu : vm.isLocked = false)
    (h : vm.Layout l) (hp : Proper target size) :
    (reprotectRange target size newPerms).Post vm
      (fun _ vm' => Throughout (fun v => v.type ≠ .free) l target (target + size) ∧
        vm.Effect (onRange target (target + size) fun _ c => { c with permissions := newPerms })
          vm')
      (fun e vm' => vm' = vm ∧ e = .invalidAddressState ∧
        ¬ Throughout (fun v => v.type ≠ .free) l target (target + size))
      (fun f => f = .memoryRefOffset ∧ ∃ v ∈ l, ¬ v.Backed) :=
  (reprotectRange_loop (swept_survives (reprotected_actsAs newPerms) (lookup l) target _)
    (swept_start _ h.tiled) hu h hp).mono
    (fun _ _ hpost => ⟨hpost.1, swept_end h hp.le_max hpost.2⟩) (fun _ _ h => h) (fun _ h => h)

/-- What `ChangeMemoryState` expects of every area that the range meets. -/
def Expected (state : MemoryState) (perms : VMAPermission) (v : VirtualMemoryArea) : Prop :=
  v.meminfoState = state ∧ v.permissions.includes perms = true

theorem changeMemoryState_loop {expectedState newState : MemoryState}
    {expectedPerms newPerms : VMAPermission}
    (hI : Survives (.restated newState newPerms) (target + size) I)
    (hstart : Throughout (Expected expectedState expectedPerms) l target (target + size) →
      Started l target size I)
    (hu : vm.isLocked = false) (h : vm.Layout l) (hp : Proper target size) :
    (changeMemoryState target size expectedState expectedPerms newState newPerms).Post vm
      (fun _ vm' => Throughout (fun v => v.type ≠ .free) l target (target + size) ∧
        Throughout (Expected expectedState expectedPerms) l target (target + size) ∧
        vm.Ended I (target + size) vm')
      (fun e vm' => vm' = vm ∧ e = .invalidAddressState ∧
        ¬ (Throughout (fun v => v.type ≠ .free) l target (target + size) ∧
          Throughout (Expected expectedState expectedPerms) l target (target + size)))
      (fun f => f = .memoryRefOffset ∧ ∃ v ∈ l, ¬ v.Backed) := by
  have hwrap : add32 target size = target + size :=
    add32_of_lt (lt_of_le_of_lt hp.le_max (by decide))
  have hpos := hp.pos
  have hmax := hp.le_max
  obtain ⟨pre, v, mid, post, hl, -, -, hfind, hlower, hmeet⟩ :=
    h.meets (a := target) (b := target + size) (by omega) (by omega)
  have hfuel : (v :: mid).length < vm.vmaMap.length + 1 := by
    rw [h.map_eq, hl]
    simp [entries]
    omega
  unfold changeMemoryState
  rw [post_bind, post_get]
  simp only [hu, Bool.false_eq_true, if_false]
  rw [post_bind, Exec.post_require]
  refine ⟨fun _ => ?_, fun hnone => (hnone (by simp [hfind])).elim⟩
  rw [post_bind, hwrap, hlower]
  have hsplit : vm.Layout (pre ++ (v :: mid ++ post)) := hl ▸ h
  have hall := allOf_post (fun vma => vma.meminfoState = expectedState &&
    vma.permissions.includes expectedPerms) (v :: mid) (vm.vmaMap.length + 1) pre hfuel hsplit
  simp only [List.cons_append, List.head?_cons, Option.map_some, ← hfind] at hall
  refine hall.mono ?_ (fun _ _ h => h.elim) (fun _ h => h.elim)
  rintro r vm₁ ⟨rfl, hr⟩
  have hexpected : r = true ↔
      Throughout (Expected expectedState expectedPerms) l target (target + size) := by
    rw [hr, List.all_eq_true]
    simpa [Throughout, Expected] using hmeet (Expected expectedState expectedPerms)
  rw [post_bind, Exec.post_require]
  refine ⟨fun hok => ?_, fun hno => ⟨rfl, rfl, fun hboth => hno (hexpected.mpr hboth.2)⟩⟩
  have hloop := carveLoop_post (rewrite_visits (restated_actsAs newState newPerms).toKeeps) hI
    (hstart (hexpected.mp hok)) hu h hp
  rw [hwrap] at hloop
  refine hloop.mono ?_ ?_ (fun _ h => h)
  · rintro _ vm' ⟨hthrough, hended⟩
    exact ⟨hthrough, hexpected.mp hok, hended⟩
  · rintro e vm' ⟨hvm, he, hnot⟩
    exact ⟨hvm, he, fun hboth => hnot hboth.1⟩

theorem changeMemoryState_post {expectedState newState : MemoryState}
    {expectedPerms newPerms : VMAPermission} (hu : vm.isLocked = false)
    (h : vm.Layout l) (hp : Proper target size) :
    (changeMemoryState target size expectedState expectedPerms newState newPerms).Post vm
      (fun _ vm' => Throughout (fun v => v.type ≠ .free) l target (target + size) ∧
        Throughout (Expected expectedState expectedPerms) l target (target + size) ∧
        vm.Effect (onRange target (target + size) fun _ c =>
          { c with permissions := newPerms, meminfoState := newState }) vm')
      (fun e vm' => vm' = vm ∧ e = .invalidAddressState ∧
        ¬ (Throughout (fun v => v.type ≠ .free) l target (target + size) ∧
          Throughout (Expected expectedState expectedPerms) l target (target + size)))
      (fun f => f = .memoryRefOffset ∧ ∃ v ∈ l, ¬ v.Backed) :=
  (changeMemoryState_loop
    (swept_survives (restated_actsAs newState newPerms) (lookup l) target _)
    (fun _ => swept_start _ h.tiled) hu h hp).mono
    (fun _ _ hpost => ⟨hpost.1, hpost.2.1, swept_end h hp.le_max hpost.2.2⟩)
    (fun _ _ h => h) (fun _ h => h)

theorem merge_focus (z : Zipper) {hi : Nat} (h : Tiled 0 z.areas hi) :
    z.merge.focus.type = z.focus.type ∧ z.merge.focus.permissions = z.focus.permissions ∧
      z.merge.focus.meminfoState = z.focus.meminfoState ∧
      z.merge.focus.base ≤ z.focus.base ∧
      z.focus.base + z.focus.size ≤ z.merge.focus.base + z.merge.focus.size ∧
      ∀ p ∈ z.left.head?, p.canBeMergedWith z.focus = true → z.merge.focus.base = p.base := by
  have hnext : z.mergeNext.left = z.left ∧ z.mergeNext.focus.base = z.focus.base ∧
      z.mergeNext.focus.type = z.focus.type ∧
      z.mergeNext.focus.permissions = z.focus.permissions ∧
      z.mergeNext.focus.meminfoState = z.focus.meminfoState ∧
      z.focus.size ≤ z.mergeNext.focus.size ∧
      ∀ p : VirtualMemoryArea,
        p.canBeMergedWith z.mergeNext.focus = p.canBeMergedWith z.focus := by
    rcases z.mergeNext_cases with ⟨heq, -⟩ | ⟨n, rest, -, -, heq⟩
    · simp [heq]
    · simp [heq, VirtualMemoryArea.extend, VirtualMemoryArea.canBeMergedWith]
  obtain ⟨hleft, hbase, htype, hperms, hstate, hsize, hmerge⟩ := hnext
  have hareas := z.same_mergeNext.tiled hi h
  unfold Zipper.merge
  rcases z.mergeNext.mergePrev_cases with ⟨heq, hno⟩ | ⟨p, rest, hl, hm, heq⟩
  · rw [heq]
    refine ⟨htype, hperms, hstate, hbase.le, by omega, fun p hp hpm => ?_⟩
    have hnot := hno p (by rwa [hleft])
    rw [hmerge, hpm] at hnot
    contradiction
  · rw [heq]
    obtain ⟨hpp, hps, hpt, -⟩ := VirtualMemoryArea.canBeMergedWith_iff.mp hm
    rw [Zipper.areas, hl, List.reverse_cons, List.append_assoc] at hareas
    obtain ⟨mid, -, hpstart, -, hfocus, -, -⟩ := tiled_append.mp hareas
    simp only [start_eq, stop_eq] at hfocus
    refine ⟨hpt.trans htype, hpp.trans hperms, hps.trans hstate, ?_, ?_, ?_⟩
    · simp only [extend_base]
      omega
    · simp only [extend_base, extend_size]
      omega
    · intro q hq _
      rw [← hleft, hl] at hq
      simp only [List.head?_cons, Option.mem_some] at hq
      rw [← hq]
      rfl

/-- Once the loop of `UnmapRange` has left the start of the range, the last area it merged is
free and covers that start. -/
def Hole (target : Nat) (left right : List VirtualMemoryArea) : Prop :=
  (∀ v ∈ right.head?, v.base = target) ∧ right ≠ [] ∨
    ∃ p rest, left = p :: rest ∧ p.type = .free ∧ p.permissions = .none ∧
      p.meminfoState = .free ∧ p.base ≤ target ∧ target < p.base + p.size

theorem hole_survives (target targetEnd : Nat) :
    Survives .unmapped targetEnd (Hole target) := by
  intro left v right htiled _ hhole
  have hz : Tiled 0 (Zipper.mk left v.unmapped right).areas maxAddress :=
    tiled_onFocus (z := ⟨left, v, right⟩) unmapped_actsAs.toKeeps htiled
  obtain ⟨htype, hperms, hstate, hbase, hstop, hprev⟩ := merge_focus _ hz
  change (visited .unmapped left v right).focus.base ≤ v.base at hbase
  change v.base + v.size ≤ (visited .unmapped left v right).focus.base +
    (visited .unmapped left v right).focus.size at hstop
  obtain ⟨mid, hpre, hmid, hpos, -⟩ := tiled_append.mp htiled
  simp only [start_eq, length_eq] at hmid hpos
  refine .inr ⟨_, _, rfl, htype, hperms, hstate, ?_⟩
  rcases hhole with ⟨hhead, -⟩ | ⟨p, rest, rfl, hpt, hpp, hps, hlo, hhi⟩
  · have hv := hhead v (by simp)
    omega
  · have hmerge : p.canBeMergedWith v.unmapped = true := by
      refine VirtualMemoryArea.canBeMergedWith_iff.mpr ⟨hpp, hps, hpt, fun hbacking => ?_⟩
      rw [hpt] at hbacking
      contradiction
    have hbp : (visited .unmapped (p :: rest) v right).focus.base = p.base :=
      hprev p (by simp) hmerge
    have hpv := (hpre.start_lt (e := p) (by simp)).2.2
    simp only [stop_eq] at hpv
    omega

theorem unmapRange_loop (hI : Survives .unmapped (target + size) I)
    (hstart : Started l target size I) (hu : vm.isLocked = false) (h : vm.Layout l)
    (hp : Proper target size) :
    (unmapRange target size).Post vm
      (fun _ vm' => Throughout (fun v => v.type ≠ .free) l target (target + size) ∧
        vm.Ended I (target + size) vm')
      (fun e vm' => vm' = vm ∧ e = .invalidAddressState ∧
        ¬ Throughout (fun v => v.type ≠ .free) l target (target + size))
      (fun f => f = .memoryRefOffset ∧ ∃ v ∈ l, ¬ v.Backed) := by
  have hpos := hp.pos
  have hmax := hp.le_max
  have hloop := carveLoop_post (unlocked_visits unmapped_actsAs.toKeeps)
    (hI.and (hole_survives target _)) (fun left v right hlist hbase hthrough hcut hcut' =>
      ⟨hstart left v right hlist hbase hthrough hcut hcut',
        .inl ⟨by simpa using hbase, by simp⟩⟩) hu h hp
  unfold unmapRange
  rw [post_bind, post_assertUnlocked hu]
  rw [post_bind] at hloop ⊢
  refine hloop.mono ?_ (fun _ _ h => h) (fun _ h => h)
  intro it vm₁ hit
  rw [post_bind]
  refine hit.mono ?_ (fun _ _ h => h) (fun _ h => h)
  rintro _ vm' ⟨hthrough, left', right', hnow, ⟨hinv, hhole⟩, hend⟩
  rw [post_bind, post_get, post_bind]
  rcases hhole with ⟨hhead, hne⟩ | ⟨p, rest, rfl, -, -, -, hlo, hhi⟩
  · obtain ⟨w, ws, rfl⟩ := List.exists_cons_of_ne_nil hne
    have hw := hhead w (by simp)
    have hw' := hend w (by simp)
    omega
  · have hlayout : vm'.Layout (rest.reverse ++ p :: right') := by simpa using hnow.layout
    rw [hlayout.findVMA_eq hlo hhi, hlayout.post_deref, post_assert]
    refine ⟨fun _ => ⟨hthrough, p :: rest, right', hnow, hinv, hend⟩, fun hshort => ?_⟩
    have hpost := hlayout.post_tiled
    cases right' with
    | nil =>
        have heq : p.base + p.size = maxAddress := hpost
        omega
    | cons w ws =>
        have heq : w.base = p.base + p.size := hpost.1
        have hw := hend w (by simp)
        omega

theorem unmapRange_post (hu : vm.isLocked = false) (h : vm.Layout l)
    (hp : Proper target size) :
    (unmapRange target size).Post vm
      (fun _ vm' => Throughout (fun v => v.type ≠ .free) l target (target + size) ∧
        vm.Effect (onRange target (target + size) fun _ _ => freeCell) vm')
      (fun e vm' => vm' = vm ∧ e = .invalidAddressState ∧
        ¬ Throughout (fun v => v.type ≠ .free) l target (target + size))
      (fun f => f = .memoryRefOffset ∧ ∃ v ∈ l, ¬ v.Backed) :=
  (unmapRange_loop (swept_survives unmapped_actsAs (lookup l) target _) (swept_start _ h.tiled)
    hu h hp).mono
    (fun _ _ hpost => ⟨hpost.1, swept_end h hp.le_max hpost.2⟩) (fun _ _ h => h) (fun _ h => h)

end RangeCalls

/-! ## Mapping and reprotecting one area -/

section OneArea

variable {memory : MemoryRef} {state : MemoryState} {newPerms : VMAPermission}

theorem InFree.cuttable (h : vm.Layout l) (hpos : 0 < size)
    (hfree : InFree l target (target + size)) :
    Cuttable (target + size) l ∧ Cuttable target (cutAt (target + size) l) := by
  obtain ⟨u, hu, hufree, hulo, huhi⟩ := hfree
  obtain ⟨pre, post, rfl⟩ := List.append_of_mem hu
  constructor
  · intro w hw hlo hhi htype
    obtain rfl := h.area_unique hw (a := target + size - 1) ⟨by omega, by omega⟩
      ⟨by omega, by omega⟩
    rw [hufree] at htype
    contradiction
  · intro w hw hlo hhi htype
    obtain ⟨x, hx, hxtype, -, -, hxlo, hxhi⟩ := mem_cutAt hw
    obtain rfl := h.area_unique hx (a := target) ⟨by omega, by omega⟩ ⟨by omega, by omega⟩
    rw [hxtype, hufree] at htype
    contradiction

/-- What a mapping that succeeds does: it rewrites the part of a free area that it cut out, and
merges it with its neighbours. -/
structure Mapped (vm : VMManager) (l : List VirtualMemoryArea) (target size : Nat)
    (memory : MemoryRef) (state : MemoryState) (z : Zipper) (vm' : VMManager) : Prop where
  inFree : InFree l target (target + size)
  areas_eq : cutAt target (cutAt (target + size) l) = z.areas
  type_eq : z.focus.type = .free
  base_eq : z.focus.base = target
  size_eq : z.focus.size = size
  now : vm.Now (z.onFocus (.mapped memory state)).merge.areas vm'

theorem mapBackingMemory_post (hu : vm.isLocked = false) (h : vm.Layout l)
    (ht : pageSize ∣ target) (hs : pageSize ∣ size) (hpos : 0 < size)
    (hwrap : target + size < 2 ^ 32) (hmem : memory.getPtr ≠ 0) :
    (mapBackingMemory target memory size state).Post vm
      (fun it vm' => ∃ z, vm.Mapped l target size memory state z vm' ∧
        it = some (z.onFocus (.mapped memory state)).merge.focus.base)
      (fun _ vm' => vm' = vm ∧ ¬ InFree l target (target + size)) (fun _ => False) := by
  unfold mapBackingMemory
  rw [post_bind, post_assertUnlocked hu, post_bind, post_assert]
  refine ⟨fun _ => ?_, fun hnull => hnull hmem⟩
  rw [post_bind]
  refine (carveVMA_post h ht hs hpos hwrap).mono ?_ (fun _ _ h => h) (fun _ h => h)
  rintro it vm₁ ⟨rfl, hin, z, hlist, hfree, hbase, hsize, hnow⟩
  have hlayout := hnow.layout
  rw [← hbase, post_bind, Layout.post_deref hlayout, post_bind, post_assert]
  refine ⟨fun _ => ?_, fun hne => hne hsize⟩
  refine (rewrite_visits (mapped_keeps memory state) vm₁ z (hnow.locked.trans hu) hlayout).mono
    ?_ (fun _ _ h => h.elim) (fun _ h => h)
  rintro it vm' ⟨rfl, hnow'⟩
  rw [hbase]
  exact ⟨z, ⟨hin, hlist, hfree, hbase, hsize, hnow.trans hnow'⟩, rfl⟩

/-- What a mapping shows at an address of its range. -/
def mappedCell (target : Nat) (memory : MemoryRef) (state : MemoryState) (a : Nat) : Cell :=
  ⟨.backingMemory, .readWrite, state, memory.getPtr + (a - target)⟩

theorem Mapped.effect {z : Zipper} (hmap : vm.Mapped l target size memory state z vm')
    (h : vm.Layout l) (hpos : 0 < size) :
    vm.Effect (onRange target (target + size) fun a _ => mappedCell target memory state a)
      vm' := by
  obtain ⟨hin, hlist, -, hbase, hsize, hnow⟩ := hmap
  obtain ⟨hcut, hcut'⟩ := hin.cuttable h hpos
  have htiled : Tiled 0 z.areas maxAddress := by
    rw [← hlist]
    exact tiled_cutAt (tiled_cutAt h.tiled _) _
  refine ⟨hnow.layout.wellFormed, hnow.locked, fun a => ?_⟩
  rw [hnow.layout.view_eq_lookup, lookup_visit (mapped_keeps memory state) htiled, ← hlist,
    lookup_cutAt hcut', lookup_cutAt hcut, ← h.view_eq_lookup, onRange, hbase, hsize]
  by_cases ha : target ≤ a ∧ a < target + size
  · obtain ⟨u, hu, -, hulo, huhi⟩ := hin
    have humax := (h.bounds hu).2
    obtain ⟨c, hc⟩ := h.tiled.exists_lookup (Nat.zero_le a) (by omega)
    rw [if_pos ha, if_pos ha, h.view_eq_lookup, hc, Option.map_some, mappedCell, ← hbase]
    rfl
  · rw [if_neg ha, if_neg ha]

theorem reprotect_post (hu : vm.isLocked = false) (z : Zipper) (h : vm.Layout z.areas) :
    (reprotect (some z.focus.base) newPerms).Post vm
      (fun it vm' => it = some (z.onFocus (.reprotected newPerms)).merge.focus.base ∧
        vm.Now (z.onFocus (.reprotected newPerms)).merge.areas vm')
      (fun _ _ => False) (fun _ => False) :=
  unlocked_visits (reprotected_actsAs newPerms).toKeeps vm z hu h

theorem reprotect_effect {z : Zipper} (h : vm.Layout z.areas)
    (hnow : vm.Now (z.onFocus (.reprotected newPerms)).merge.areas vm') :
    vm.Effect (onRange z.focus.base (z.focus.base + z.focus.size) fun _ c =>
      { c with permissions := newPerms }) vm' := by
  have hf := reprotected_actsAs newPerms
  refine ⟨hnow.layout.wellFormed, hnow.locked, fun a => ?_⟩
  rw [hnow.layout.view_eq_lookup, lookup_visit hf.toKeeps h.tiled, h.view_eq_lookup, onRange]
  by_cases ha : z.focus.base ≤ a ∧ a < z.focus.base + z.focus.size
  · have hview := Layout.view_eq h ha.1 ha.2
    rw [h.view_eq_lookup] at hview
    rw [if_pos ha, if_pos ha, hview, hf.cell, Option.map_some]
  · rw [if_neg ha, if_neg ha]

end OneArea

end Cytrus.Kernel.VMManager
