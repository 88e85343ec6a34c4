import Mathlib
import Cytrus.VideoCore.RasterizerCache

/-!
# Owners of dirty regions

A dirty region has an owner that is registered, that has the region, and has it
valid. So a flush never meets an erased surface, nor one that lost what it owns.

## Main results

* `ownership`: the owners of the caches that are used as their callers use them
* `ownership_asserted`: the assertions alone do not keep the owners
-/

namespace Cytrus.VideoCore

open Support

section Intervals

variable {i j : Block} {n : Nat}

theorem mem_intersection : n ∈ (intersection i j).toFinset ↔ n ∈ i.toFinset ∧ n ∈ j.toFinset := by
  simp only [intersection, Block.mem_toFinset]
  omega

theorem value_foldl_erase {α : Type} [DecidableEq α] {blocks : List Block} {m : IntervalMap α} :
    (blocks.foldl (fun d b => d.erase b.lower b.upper) m).value n =
      if n ∈ Block.union blocks then none else m.value n := by
  induction blocks generalizing m with
  | nil => rfl
  | cons b rest ih =>
      rw [List.foldl_cons, ih, IntervalMap.value_erase, Block.union_cons]
      by_cases hrest : n ∈ Block.union rest
      · rw [if_pos hrest, if_pos (Finset.mem_union_right _ hrest)]
      · rw [if_neg hrest]
        refine if_congr ?_ rfl rfl
        rw [Finset.mem_union, or_iff_left hrest, Block.mem_toFinset]

end Intervals

namespace Surface

variable {ρ : Type} {s : Surface ρ} {interval : Block}

theorem isRegionValid_iff :
    s.isRegionValid interval = true ↔ ∀ a ∈ interval.toFinset, a ∉ s.invalidRegions.toFinset := by
  rw [isRegionValid, Bool.not_eq_true', IntervalSet.intersects_iff, Finset.disjoint_right]

theorem isFullyInvalid_spec (h : s.isFullyInvalid = some true) {a : Nat} (ha : a ∈ s.getInterval.toFinset) :
    a ∈ s.invalidRegions.toFinset := by
  obtain ⟨b, hfind, heq⟩ := Option.map_eq_some_iff.mp h
  rw [decide_eq_true_iff] at heq
  exact IntervalSet.toFinset_of_mem (heq ▸ List.mem_of_find?_eq_some hfind) ha

end Surface

namespace RasterizerCache

variable {ι ρ : Type} {c c' : RasterizerCache ι ρ} {id : ι}

/-- The surface is registered, has the address, and has it valid. -/
def Owns (c : RasterizerCache ι ρ) (id : ι) (n : Nat) : Prop :=
  ∃ s, c.slots id = some s ∧ s.registered = true ∧ n ∈ s.getInterval.toFinset ∧
    n ∉ s.invalidRegions.toFinset

/-- Dirty addresses are owned, and what is sentenced is there, unregistered and once. -/
structure Coherent (c : RasterizerCache ι ρ) : Prop where
  owned : ∀ n id, c.dirtyRegions.value n = some id → c.Owns id n
  sentenced : ∀ e ∈ c.sentenced, ∃ s, c.slots e.1 = some s ∧ s.registered = false
  nodup : (c.sentenced.map Prod.fst).Nodup

section Flush

variable [DecidableEq ι] {addr size : UInt32} {interval : Block} {owner : Option ι}
  {flushed : IntervalSet} {segment : MapSegment ι}

/-- What is flushed of a dirty region. -/
def flushedOf (size : UInt32) (interval : Block) (owner : Option ι) (segment : MapSegment ι) : Finset Nat :=
  if owner.any (· ≠ segment.value) then ∅
  else if size ≤ 8 then (Block.mk segment.lower segment.upper).toFinset
  else (intersection ⟨segment.lower, segment.upper⟩ interval).toFinset

theorem flushSegment_spec (hsegment : segment.lower < segment.upper)
    (howns : ∀ n, segment.Contains n → c.Owns segment.value n) :
    ∃ flushed', c.flushSegment size interval owner flushed segment = some flushed' ∧
      flushed'.toFinset = flushed.toFinset ∪ flushedOf size interval owner segment := by
  obtain ⟨s, hs, -⟩ := howns segment.lower ⟨le_rfl, hsegment⟩
  have hvalid {region : Block} (hregion : ∀ n ∈ region.toFinset, segment.Contains n) :
      s.isRegionValid region = true := by
    refine Surface.isRegionValid_iff.mpr fun n hn => ?_
    obtain ⟨s', hs', -, -, hclean⟩ := howns n (hregion n hn)
    cases Option.some.inj (hs.symm.trans hs')
    exact hclean
  by_cases hother : owner.any (· ≠ segment.value) = true
  · refine ⟨flushed, ?_, ?_⟩
    · rw [flushSegment, if_pos hother]
      rfl
    · rw [flushedOf, if_pos hother, Finset.union_empty]
  · rw [flushSegment, if_neg hother, flushedOf, if_neg hother, hs, Option.bind_eq_bind, Option.bind_some]
    by_cases hsmall : size ≤ 8
    · have hclean := @hvalid ⟨segment.lower, segment.upper⟩ fun n hn => Block.mem_toFinset.mp hn
      rw [if_pos hsmall, if_pos hsmall, if_pos hclean]
      exact ⟨_, rfl, IntervalSet.toFinset_add ..⟩
    · have hclean := @hvalid (intersection ⟨segment.lower, segment.upper⟩ interval) fun n hn =>
        Block.mem_toFinset.mp (mem_intersection.mp hn).1
      rw [if_neg hsmall, if_neg hsmall, if_pos hclean]
      exact ⟨_, rfl, IntervalSet.toFinset_add ..⟩

theorem flushSegments_spec {l : List (MapSegment ι)}
    (hl : ∀ segment ∈ l, segment.lower < segment.upper ∧ ∀ n, segment.Contains n → c.Owns segment.value n) :
    ∃ flushed', l.foldlM (c.flushSegment size interval owner) flushed = some flushed' ∧
      ∀ n, n ∈ flushed'.toFinset ↔
        n ∈ flushed.toFinset ∨ ∃ segment ∈ l, n ∈ flushedOf size interval owner segment := by
  induction l generalizing flushed with
  | nil => exact ⟨flushed, rfl, fun n => by simp⟩
  | cons segment rest ih =>
      obtain ⟨hsegment, howns⟩ := hl segment (List.mem_cons_self ..)
      obtain ⟨flushed₁, hstep, hset⟩ := @flushSegment_spec ι ρ c _ size interval owner flushed segment
        hsegment howns
      obtain ⟨flushed', hfold, hmem⟩ := @ih flushed₁ fun t ht => hl t (List.mem_cons_of_mem _ ht)
      refine ⟨flushed', ?_, fun n => ?_⟩
      · rw [List.foldlM_cons, hstep]
        exact hfold
      · rw [hmem, hset, Finset.mem_union, List.exists_mem_cons_iff, or_assoc]

omit [DecidableEq ι] in
theorem Coherent.owned_segment (h : c.Coherent) (hsegment : segment ∈ c.dirtyRegions.segments) :
    segment.lower < segment.upper ∧ ∀ n, segment.Contains n → c.Owns segment.value n :=
  ⟨(c.dirtyRegions.ordered.bounds hsegment).2, fun n hn =>
    h.owned n _ (IntervalMap.value_eq_some.mpr ⟨segment, hsegment, hn, rfl⟩)⟩

theorem Coherent.flushRegion_spec (h : c.Coherent) (addr size : UInt32) (owner : Option ι) :
    ∃ dirtyRegions, c.flushRegion addr size owner = some { c with dirtyRegions := dirtyRegions } ∧
      (∀ n id, dirtyRegions.value n = some id → c.dirtyRegions.value n = some id) ∧
      ∀ n id, 0 < size → n ∈ (surfaceInterval addr (addr + size)).toFinset → owner.all (· = id) = true →
        dirtyRegions.value n ≠ some id := by
  by_cases hzero : size = 0
  · refine ⟨c.dirtyRegions, ?_, fun _ _ hn => hn, ?_⟩
    · rw [flushRegion, if_pos hzero]
      rfl
    · rintro n id hpos
      subst hzero
      exact absurd hpos (by decide)
  · have hwalk := fun segment (hsegment : segment ∈ c.dirtyRegions.overlapping
        (surfaceInterval addr (addr + size)).lower (surfaceInterval addr (addr + size)).upper) =>
      h.owned_segment (IntervalMap.mem_overlapping.mp hsegment).1
    obtain ⟨flushed, hfold, hmem⟩ := @flushSegments_spec ι ρ c _ size (surfaceInterval addr (addr + size))
      owner .empty _ hwalk
    refine ⟨flushed.blocks.foldl (fun d b => d.erase b.lower b.upper) c.dirtyRegions, ?_, ?_, ?_⟩
    · rw [flushRegion, if_neg hzero]
      dsimp only
      rw [hfold]
      rfl
    · intro n id hn
      rw [value_foldl_erase] at hn
      split at hn
      · exact nomatch hn
      · exact hn
    · intro n id hpos hin howner hn
      rw [value_foldl_erase] at hn
      split at hn
      · exact nomatch hn
      · next hkept =>
        obtain ⟨segment, hsegment, hcontains, hvalue⟩ := IntervalMap.value_eq_some.mp hn
        refine hkept ((hmem n).mpr (.inr ⟨segment, ?_, ?_⟩))
        · have hbounds := Block.mem_toFinset.mp hin
          have hlow := hcontains.1
          have hhigh := hcontains.2
          exact IntervalMap.mem_overlapping.mpr ⟨hsegment, by omega, by omega, by omega⟩
        · have hmine : ¬ owner.any (· ≠ segment.value) = true := by
            rw [hvalue]
            cases owner with
            | none => exact nofun
            | some other => simpa using howner
          have hregion : n ∈ (Block.mk segment.lower segment.upper).toFinset := Block.mem_toFinset.mpr hcontains
          rw [flushedOf, if_neg hmine]
          split
          · exact hregion
          · exact mem_intersection.mpr ⟨hregion, hin⟩

end Flush

section Registration

variable {s : Surface ρ} {o : Option (Surface ρ)}

theorem Owns.congr {n : Nat} (h : c.Owns id n) (hslot : c'.slots id = c.slots id) : c'.Owns id n := by
  rw [Owns, hslot]
  exact h

theorem Coherent.congr (h : c.Coherent) (hslots : c'.slots = c.slots)
    (hdirty : c'.dirtyRegions = c.dirtyRegions) (hsentenced : c'.sentenced = c.sentenced) : c'.Coherent where
  owned n id hn := (h.owned n id (hdirty ▸ hn)).congr (congrFun hslots id)
  sentenced := by
    rw [hslots, hsentenced]
    exact h.sentenced
  nodup := hsentenced ▸ h.nodup

theorem Coherent.notMem_sentenced (h : c.Coherent) (hs : c.slots id = some s) (hregistered : s.registered = true) :
    id ∉ c.sentenced.map Prod.fst := by
  intro hmem
  obtain ⟨e, he, rfl⟩ := List.mem_map.mp hmem
  obtain ⟨s', hs', hfalse⟩ := h.sentenced e he
  cases Option.some.inj (hs.symm.trans hs')
  exact absurd hregistered (by rw [hfalse]; decide)

theorem Coherent.sentence (h : c.Coherent) (hs : c.slots id = some s) (hregistered : s.registered = false)
    (hid : id ∉ c.sentenced.map Prod.fst) (tick : UInt64) :
    Coherent { c with sentenced := c.sentenced ++ [(id, tick)] } where
  owned := h.owned
  sentenced e he := by
    rcases List.mem_append.mp he with he | he
    · exact h.sentenced e he
    · cases List.mem_singleton.mp he
      exact ⟨s, hs, hregistered⟩
  nodup := by
    rw [List.map_append, List.nodup_append]
    refine ⟨h.nodup, List.nodup_singleton _, ?_⟩
    rintro x hx y hy rfl
    cases List.mem_singleton.mp hy
    exact hid hx

variable [DecidableEq ι]

theorem slots_setSlot : (c.setSlot id o).slots id = o := Function.update_self ..

theorem slots_setSlot_of_ne {other : ι} (hne : other ≠ id) : (c.setSlot id o).slots other = c.slots other :=
  Function.update_of_ne hne ..

theorem Coherent.setSlot (h : c.Coherent)
    (howned : ∀ n, c.dirtyRegions.value n = some id → (c.setSlot id o).Owns id n)
    (hsentenced : id ∈ c.sentenced.map Prod.fst → ∃ s, o = some s ∧ s.registered = false) :
    (c.setSlot id o).Coherent where
  owned n other hn := by
    rcases eq_or_ne other id with rfl | hne
    · exact howned n hn
    · exact (h.owned n other hn).congr (slots_setSlot_of_ne hne)
  sentenced e he := by
    rcases eq_or_ne e.1 id with heq | hne
    · obtain ⟨s, ho, hregistered⟩ := hsentenced (heq ▸ List.mem_map_of_mem he)
      refine ⟨s, ?_, hregistered⟩
      rw [heq, slots_setSlot]
      exact ho
    · obtain ⟨s, hs, hregistered⟩ := h.sentenced e he
      exact ⟨s, (slots_setSlot_of_ne hne).trans hs, hregistered⟩
  nodup := h.nodup

omit [DecidableEq ι] in
theorem Coherent.value_ne (h : c.Coherent) (hs : ∀ s, c.slots id = some s → s.registered = false) (n : Nat) :
    c.dirtyRegions.value n ≠ some id := by
  intro hn
  obtain ⟨s, hslot, hregistered, -⟩ := h.owned n id hn
  exact absurd hregistered (by rw [hs s hslot]; decide)

theorem Coherent.register (h : c.Coherent) (hid : id ∉ c.sentenced.map Prod.fst)
    (hregister : c.registerSurface id = some c') : c'.Coherent := by
  obtain ⟨s, cachedPages, marks, hs, hregistered, rfl⟩ := registerSurface_cases hregister
  have hfree := @Coherent.value_ne ι ρ c id h fun s' hs' => by
    cases Option.some.inj (hs.symm.trans hs')
    exact hregistered
  have hset := @Coherent.setSlot ι ρ c id (some { s with registered := true }) _ h
    (fun n hn => absurd hn (hfree n)) fun hmem => absurd hmem hid
  exact hset.congr rfl rfl rfl

theorem Coherent.unregister (h : c.Coherent) (hfree : ∀ n, c.dirtyRegions.value n ≠ some id)
    (hunregister : c.unregisterSurface id = some c') :
    c'.Coherent ∧ c'.dirtyRegions = c.dirtyRegions := by
  obtain ⟨s, cachedPages, marks, pageTable, hs, hregistered, -, rfl⟩ := unregisterSurface_cases hunregister
  have hid := h.notMem_sentenced hs hregistered
  have hset (o : Option (Surface ρ)) : (c.setSlot id o).Coherent :=
    h.setSlot (fun n hn => absurd hn (hfree n)) fun hmem => absurd hmem hid
  refine ⟨?_, rfl⟩
  by_cases hfill : s.type = .fill
  · refine (hset none).congr ?_ rfl ?_
    · simp only [if_pos hfill]
      rfl
    · exact if_pos hfill
  · have hsentenced := (hset (some { s with registered := false })).sentence
      slots_setSlot rfl hid c.frameTick
    refine hsentenced.congr ?_ rfl ?_
    · simp only [if_neg hfill]
      rfl
    · exact if_neg hfill

theorem Coherent.unregisterAll {removed : List ι} (h : c.Coherent)
    (hfree : ∀ id ∈ removed, ∀ n, c.dirtyRegions.value n ≠ some id)
    (hfold : removed.foldlM unregisterSurface c = some c') : c'.Coherent := by
  induction removed generalizing c with
  | nil =>
      cases Option.some.inj hfold
      exact h
  | cons id rest ih =>
      rw [List.foldlM_cons] at hfold
      obtain ⟨c₁, hunregister, hrest⟩ := Option.bind_eq_some_iff.mp hfold
      obtain ⟨h₁, hdirty⟩ := h.unregister (hfree id (List.mem_cons_self ..)) hunregister
      refine ih h₁ (fun other hother n => ?_) hrest
      rw [hdirty]
      exact hfree other (List.mem_cons_of_mem _ hother) n

end Registration

section Invalidate

variable [DecidableEq ι] {s : Surface ρ} {addr size : UInt32} {invalid : Block} {owner : Option ι}
  {removed removed' : List ι}

/-- In the middle of `InvalidateRegion`, where the owner has the region and the others may have lost it. -/
structure Walked (owner : Option ι) (invalid : Block) (c : RasterizerCache ι ρ) (removed : List ι) : Prop where
  owned : ∀ n id, c.dirtyRegions.value n = some id → n ∉ invalid.toFinset → c.Owns id n
  sentenced : ∀ e ∈ c.sentenced, ∃ s, c.slots e.1 = some s ∧ s.registered = false
  nodup : (c.sentenced.map Prod.fst).Nodup
  owns : ∀ id, owner = some id → ∀ n ∈ invalid.toFinset, c.Owns id n
  removed : ∀ id ∈ removed, owner ≠ some id ∧ ∀ n, c.dirtyRegions.value n = some id → n ∈ invalid.toFinset

omit [DecidableEq ι] in
theorem Coherent.walked (h : c.Coherent) (invalid : Block)
    (hremoved : ∀ id ∈ removed, ∀ n, c.dirtyRegions.value n ≠ some id) : Walked none invalid c removed where
  owned n id hn _ := h.owned n id hn
  sentenced := h.sentenced
  nodup := h.nodup
  owns _ hnone := nomatch hnone
  removed id hid := ⟨nofun, fun n hn => absurd hn (hremoved id hid n)⟩

theorem Coherent.validateOwner (h : c.Coherent) (hregistered : c.registration id ≠ none)
    (howner : c.validateOwner addr size id = some c') :
    Walked (some id) (surfaceInterval addr (addr + size)) c' [] := by
  obtain ⟨region, hregion⟩ := Option.ne_none_iff_exists'.mp hregistered
  obtain ⟨s, hs, htrue, -⟩ := registration_eq_some.mp hregion
  rw [RasterizerCache.validateOwner, hs, Option.bind_eq_bind, Option.bind_some] at howner
  split at howner
  · exact nomatch howner
  · split at howner
    · exact nomatch howner
    · next hinside =>
      split at howner
      · exact nomatch howner
      · obtain ⟨hlow, hhigh⟩ := not_not.mp hinside
        have hlow' := UInt32.le_iff_toNat_le.mp hlow
        have hhigh' := UInt32.le_iff_toNat_le.mp hhigh
        cases Option.some.inj howner
        have hvalid (n : Nat) : n ∈ (s.markValid (surfaceInterval addr (addr + size))).invalidRegions.toFinset ↔
            n ∈ s.invalidRegions.toFinset ∧ n ∉ (surfaceInterval addr (addr + size)).toFinset := by
          rw [Surface.markValid, IntervalSet.toFinset_sub, Finset.mem_sdiff]
        refine ⟨fun n other hn _ => ?_, fun e he => ?_, h.nodup, ?_, fun other hother => ?_⟩
        · rcases eq_or_ne other id with rfl | hne
          · obtain ⟨s', hs', -, hin, hclean⟩ := h.owned n _ hn
            cases Option.some.inj (hs.symm.trans hs')
            exact ⟨_, slots_setSlot, htrue, hin, fun hmem => hclean ((hvalid n).mp hmem).1⟩
          · exact (h.owned n other hn).congr (slots_setSlot_of_ne hne)
        · obtain ⟨s', hs', hfalse⟩ := h.sentenced e he
          have hne : e.1 ≠ id := by
            rintro rfl
            cases Option.some.inj (hs.symm.trans hs')
            exact absurd htrue (by rw [hfalse]; decide)
          exact ⟨s', (slots_setSlot_of_ne hne).trans hs', hfalse⟩
        · intro other hother n hn
          cases Option.some.inj hother
          refine ⟨_, slots_setSlot, htrue, ?_, fun hmem => ((hvalid n).mp hmem).2 hn⟩
          have hbounds := Block.mem_toFinset.mp hn
          exact Block.mem_toFinset.mpr ⟨hlow'.trans hbounds.1, hbounds.2.trans_le hhigh'⟩
        · exact absurd hother List.not_mem_nil

theorem Walked.step (h : Walked owner invalid c removed) (hlarge : ¬ (owner = none ∧ size ≤ 8))
    (hstep : invalidateSurface size invalid owner (c, removed) id = some (c', removed')) :
    Walked owner invalid c' removed' := by
  rw [invalidateSurface] at hstep
  dsimp only at hstep
  split at hstep
  · cases Option.some.inj hstep
    exact h
  · next hother =>
    obtain ⟨s, hs, hstep⟩ := Option.bind_eq_some_iff.mp hstep
    obtain ⟨fully, hfully, hstep⟩ := Option.bind_eq_some_iff.mp hstep
    obtain ⟨rfl, rfl⟩ := Prod.mk.inj (Option.some.inj hstep)
    have hmarked (n : Nat) :
        n ∈ (s.markInvalid (intersection s.getInterval invalid)).invalidRegions.toFinset ↔
          n ∈ s.invalidRegions.toFinset ∨ n ∈ s.getInterval.toFinset ∧ n ∈ invalid.toFinset := by
      rw [Surface.markInvalid, IntervalSet.toFinset_add, Finset.mem_union, mem_intersection]
    have howned : ∀ n other, c.dirtyRegions.value n = some other → n ∉ invalid.toFinset →
        (c.setSlot id (some (s.markInvalid (intersection s.getInterval invalid)))).Owns other n := by
      intro n other hn hout
      rcases eq_or_ne other id with rfl | hne
      · obtain ⟨s', hs', htrue, hin, hclean⟩ := h.owned n _ hn hout
        cases Option.some.inj (hs.symm.trans hs')
        refine ⟨_, slots_setSlot, htrue, hin, fun hmem => ?_⟩
        exact ((hmarked n).mp hmem).elim hclean fun hboth => hout hboth.2
      · exact (h.owned n other hn hout).congr (slots_setSlot_of_ne hne)
    refine ⟨howned, fun e he => ?_, h.nodup, fun other howner n hn => ?_, ?_⟩
    · obtain ⟨s', hs', hfalse⟩ := h.sentenced e he
      rcases eq_or_ne e.1 id with rfl | hne
      · cases Option.some.inj (hs.symm.trans hs')
        exact ⟨_, slots_setSlot, hfalse⟩
      · exact ⟨s', (slots_setSlot_of_ne hne).trans hs', hfalse⟩
    · have hne : other ≠ id := fun heq => hother (heq ▸ howner)
      exact (h.owns other howner n hn).congr (slots_setSlot_of_ne hne)
    · intro other hmem
      split at hmem
      · next htrue =>
        rcases List.mem_append.mp hmem with hmem | hmem
        · exact h.removed other hmem
        · cases List.mem_singleton.mp hmem
          refine ⟨hother, fun n hn => by_contra fun hout => ?_⟩
          obtain ⟨s', hs', -, hin, hclean⟩ := howned n _ hn hout
          cases Option.some.inj (slots_setSlot.symm.trans hs')
          exact hclean (Surface.isFullyInvalid_spec (htrue ▸ hfully) hin)
      · exact h.removed other hmem

theorem Walked.run {visited : List ι} (h : Walked owner invalid c removed)
    (hlarge : ¬ (owner = none ∧ size ≤ 8))
    (hfold : visited.foldlM (invalidateSurface size invalid owner) (c, removed) = some (c', removed')) :
    Walked owner invalid c' removed' := by
  induction visited generalizing c removed with
  | nil =>
      cases Option.some.inj hfold
      exact h
  | cons id rest ih =>
      rw [List.foldlM_cons] at hfold
      obtain ⟨⟨c₁, removed₁⟩, hstep, hrest⟩ := Option.bind_eq_some_iff.mp hfold
      exact ih (h.step hlarge hstep) hrest

omit [DecidableEq ι] in
theorem Walked.written {dirtyRegions : IntervalMap ι} (h : Walked owner invalid c removed)
    (hdirty : ∀ n, dirtyRegions.value n =
      if invalid.lower ≤ n ∧ n < invalid.upper then owner else c.dirtyRegions.value n) :
    Coherent { c with dirtyRegions := dirtyRegions } ∧
      ∀ id ∈ removed, ∀ n, dirtyRegions.value n ≠ some id := by
  refine ⟨⟨fun n id hn => ?_, h.sentenced, h.nodup⟩, fun id hid n hn => ?_⟩
  · rw [hdirty] at hn
    split at hn
    · next hin => exact h.owns id hn n (Block.mem_toFinset.mpr hin)
    · next hout => exact h.owned n id hn fun hin => hout (Block.mem_toFinset.mp hin)
  · obtain ⟨hother, hinside⟩ := h.removed id hid
    rw [hdirty] at hn
    split at hn
    · exact hother hn
    · next hout => exact hout (Block.mem_toFinset.mp (hinside n hn))

theorem Coherent.small (h : c.Coherent) (hs : c.slots id = some s) (hsize : size ≤ 8)
    (hremoved : ∀ id ∈ removed, ∀ n, c.dirtyRegions.value n ≠ some id) :
    ∃ c', invalidateSurface size invalid none (c, removed) id = some (c', removed ++ [id]) ∧
      c'.slots = c.slots ∧ c'.Coherent ∧ ∀ id' ∈ removed ++ [id], ∀ n, c'.dirtyRegions.value n ≠ some id' := by
  obtain ⟨dirtyRegions, hflush, hsubset, hflushed⟩ := h.flushRegion_spec s.addr s.size (some id)
  refine ⟨{ c with dirtyRegions := dirtyRegions }, ?_, rfl, ?_, fun id' hid' n hn => ?_⟩
  · have hnone : ¬ (none : Option ι) = some id := nofun
    rw [invalidateSurface]
    dsimp only
    rw [if_neg hnone, hs, Option.bind_eq_bind, Option.bind_some, if_pos ⟨rfl, hsize⟩, hflush]
    rfl
  · exact ⟨fun n id' hn => h.owned n id' (hsubset n id' hn), h.sentenced, h.nodup⟩
  · rcases List.mem_append.mp hid' with hid' | hid'
    · exact hremoved id' hid' n (hsubset n id' hn)
    · cases List.mem_singleton.mp hid'
      obtain ⟨s', hs', -, hin, -⟩ := h.owned n id (hsubset n id hn)
      cases Option.some.inj (hs.symm.trans hs')
      have hregion : s.getInterval = surfaceInterval s.addr (s.addr + s.size) := by
        rw [Surface.getInterval, s.stop_eq]
      rw [hregion] at hin
      refine hflushed n id (UInt32.pos_iff_ne_zero.mpr fun hzero => ?_) hin (by simp) hn
      have hbounds := Block.mem_toFinset.mp hin
      rw [hzero, UInt32.add_zero] at hbounds
      exact absurd (hbounds.1.trans_lt hbounds.2) (lt_irrefl _)

theorem Coherent.smallRun {visited : List ι} (h : c.Coherent) (hvisited : ∀ id ∈ visited, (c.slots id).isSome)
    (hsize : size ≤ 8) (hremoved : ∀ id ∈ removed, ∀ n, c.dirtyRegions.value n ≠ some id) :
    ∃ c' removed', visited.foldlM (invalidateSurface size invalid none) (c, removed) = some (c', removed') ∧
      c'.Coherent ∧ ∀ id ∈ removed', ∀ n, c'.dirtyRegions.value n ≠ some id := by
  induction visited generalizing c removed with
  | nil => exact ⟨c, removed, rfl, h, hremoved⟩
  | cons id rest ih =>
      obtain ⟨s, hs⟩ := Option.isSome_iff_exists.mp (hvisited id (List.mem_cons_self ..))
      obtain ⟨c₁, hstep, hslots, h₁, hremoved₁⟩ := @Coherent.small ι ρ c id _ s size invalid removed h hs
        hsize hremoved
      obtain ⟨c', removed', hfold, hrest⟩ := @ih c₁ _ h₁
        (fun other hother => by rw [hslots]; exact hvisited other (List.mem_cons_of_mem _ hother)) hremoved₁
      refine ⟨c', removed', ?_, hrest⟩
      rw [List.foldlM_cons, hstep]
      exact hfold

omit [DecidableEq ι] in
theorem mem_surfacesInRegion [DecidableEq ι] {visited : List ι}
    (h : c.surfacesInRegion addr size = some visited) (hid : id ∈ visited) : (c.slots id).isSome := by
  rw [surfacesInRegion] at h
  split at h
  · next hlive =>
    cases Option.some.inj h
    exact hlive id (List.mem_filter.mp hid).1
  · exact nomatch h

theorem Coherent.invalidate (h : c.Coherent) (hregistered : ∀ id, owner = some id → c.registration id ≠ none)
    (hinvalidate : c.invalidateRegion addr size owner = some c') : c'.Coherent := by
  rw [invalidateRegion] at hinvalidate
  split at hinvalidate
  · cases Option.some.inj hinvalidate
    exact h
  · dsimp only at hinvalidate
    cases owner with
    | none =>
        obtain ⟨c₀, hc₀, hinvalidate⟩ := Option.bind_eq_some_iff.mp hinvalidate
        cases Option.some.inj hc₀
        obtain ⟨visited, hvisited, hinvalidate⟩ := Option.bind_eq_some_iff.mp hinvalidate
        obtain ⟨⟨c₁, removed⟩, hfold, hunregister⟩ := Option.bind_eq_some_iff.mp hinvalidate
        have hwalked : Walked none (surfaceInterval addr (addr + size)) c₁ removed := by
          by_cases hsize : size ≤ 8
          · obtain ⟨c₂, removed₂, hfold₂, h₂, hremoved₂⟩ := @Coherent.smallRun ι ρ c _ size
              (surfaceInterval addr (addr + size)) [] visited h
              (fun id hid => mem_surfacesInRegion hvisited hid) hsize
              fun id hid => absurd hid List.not_mem_nil
            cases Option.some.inj (hfold.symm.trans hfold₂)
            exact h₂.walked _ hremoved₂
          · have hstart := @Coherent.walked ι ρ c [] h (surfaceInterval addr (addr + size))
              fun id hid => absurd hid List.not_mem_nil
            exact hstart.run (fun hsmall => hsize hsmall.2) hfold
        obtain ⟨hcoherent, hfree⟩ := hwalked.written fun n => IntervalMap.value_erase
        exact hcoherent.unregisterAll hfree hunregister
    | some id =>
        obtain ⟨c₀, howner, hinvalidate⟩ := Option.bind_eq_some_iff.mp hinvalidate
        obtain ⟨visited, hvisited, hinvalidate⟩ := Option.bind_eq_some_iff.mp hinvalidate
        obtain ⟨⟨c₁, removed⟩, hfold, hunregister⟩ := Option.bind_eq_some_iff.mp hinvalidate
        have hwalked := (h.validateOwner (hregistered id rfl) howner).run (fun hsmall => nomatch hsmall.1) hfold
        obtain ⟨hcoherent, hfree⟩ := hwalked.written fun n => IntervalMap.value_set
        exact hcoherent.unregisterAll hfree hunregister

end Invalidate

section Slots

variable [DecidableEq ι] {s : Surface ρ} {fresh : ι}

theorem Coherent.fill (h : c.Coherent) (hfresh : c.slots fresh = none) (o : Option (Surface ρ)) :
    (c.setSlot fresh o).Coherent := by
  refine h.setSlot (fun n hn => ?_) fun hmem => ?_
  · obtain ⟨s, hs, -⟩ := h.owned n fresh hn
    exact nomatch hfresh.symm.trans hs
  · obtain ⟨e, he, rfl⟩ := List.mem_map.mp hmem
    obtain ⟨s, hs, -⟩ := h.sentenced e he
    exact nomatch hfresh.symm.trans hs

theorem Coherent.insert {params : SurfaceParams ρ} (h : c.Coherent)
    (hinsert : c.insertSurface params fresh = some c') : c'.Coherent := by
  rw [insertSurface] at hinsert
  split at hinsert
  · exact nomatch hinsert
  · next hfresh =>
    cases Option.some.inj hinsert
    exact h.fill (by simpa using hfresh) _

theorem Coherent.markInvalid (h : c.Coherent) (hs : c.slots id = some s) (hregistered : s.registered = false)
    (interval : Block) : (c.setSlot id (some (s.markInvalid interval))).Coherent := by
  have hfree := @Coherent.value_ne ι ρ c id h fun s' hs' => by
    cases Option.some.inj (hs.symm.trans hs')
    exact hregistered
  exact h.setSlot (fun n hn => absurd hn (hfree n)) fun _ => ⟨_, rfl, hregistered⟩

theorem Coherent.slotFor [DecidableEq ρ] {params : SurfaceParams ρ} (h : c.Coherent)
    (hfound : c.slotFor params fresh = some (id, c')) (hs : c'.slots id = some s) :
    c'.Coherent ∧ s.registered = false := by
  rw [RasterizerCache.slotFor] at hfound
  split at hfound
  · obtain ⟨c₁, hinsert, heq⟩ := Option.map_eq_some_iff.mp hfound
    obtain ⟨rfl, rfl⟩ := Prod.mk.inj heq
    refine ⟨h.insert hinsert, ?_⟩
    rw [insertSurface] at hinsert
    split at hinsert
    · exact nomatch hinsert
    · cases Option.some.inj hinsert
      cases Option.some.inj (slots_setSlot.symm.trans hs)
      rfl
  · next e he =>
    obtain ⟨rfl, rfl⟩ := Prod.mk.inj (Option.some.inj hfound)
    obtain ⟨s', hs', hregistered⟩ := h.sentenced e (List.mem_of_find?_eq_some he)
    cases Option.some.inj (hs.symm.trans hs')
    exact ⟨⟨h.owned, fun e' he' => h.sentenced e' (List.mem_of_mem_erase he'),
      h.nodup.sublist (List.erase_sublist.map _)⟩, hregistered⟩

theorem Coherent.create [DecidableEq ρ] {params : SurfaceParams ρ} (h : c.Coherent)
    (hcreate : c.createSurface params fresh = some (id, c')) : c'.Coherent := by
  rw [createSurface] at hcreate
  split at hcreate
  · exact nomatch hcreate
  · obtain ⟨⟨id', c₁⟩, hfound, hcreate⟩ := Option.bind_eq_some_iff.mp hcreate
    obtain ⟨s, hs, hcreate⟩ := Option.bind_eq_some_iff.mp hcreate
    obtain ⟨rfl, rfl⟩ := Prod.mk.inj (Option.some.inj hcreate)
    obtain ⟨h₁, hregistered⟩ := h.slotFor hfound hs
    exact h₁.markInvalid hs hregistered _

theorem Coherent.notify {interval : Block} (h : c.Coherent)
    (hnotify : c.notifyValidated id interval = some c') : c'.Coherent := by
  obtain ⟨s, hs, hnotify⟩ := Option.bind_eq_some_iff.mp hnotify
  cases Option.some.inj hnotify
  refine h.setSlot (fun n hn => ?_) fun hmem => ?_
  · obtain ⟨s', hs', hregistered, hin, hclean⟩ := h.owned n id hn
    cases Option.some.inj (hs.symm.trans hs')
    refine ⟨_, slots_setSlot, hregistered, hin, fun hbad => hclean ?_⟩
    rw [Surface.markValid, IntervalSet.toFinset_sub] at hbad
    exact (Finset.mem_sdiff.mp hbad).1
  · obtain ⟨e, he, rfl⟩ := List.mem_map.mp hmem
    obtain ⟨s', hs', hregistered⟩ := h.sentenced e he
    cases Option.some.inj (hs.symm.trans hs')
    exact ⟨_, rfl, hregistered⟩

theorem Coherent.upload (h : c.Coherent) (hupload : c.uploadCustom id fresh = some c') : c'.Coherent := by
  obtain ⟨s, hs, hupload⟩ := Option.bind_eq_some_iff.mp hupload
  split at hupload
  · exact nomatch hupload
  · next hfresh =>
    have hnone : c.slots fresh = none := by simpa using hfresh
    cases Option.some.inj hupload
    have hid : fresh ∉ c.sentenced.map Prod.fst := fun hmem => by
      obtain ⟨e, he, rfl⟩ := List.mem_map.mp hmem
      obtain ⟨s', hs', -⟩ := h.sentenced e he
      exact nomatch hnone.symm.trans hs'
    exact (h.fill hnone _).sentence slots_setSlot rfl hid c.frameTick

theorem foldl_erase_slots {l : List (ι × UInt64)} {slots : ι → Option (Surface ρ)}
    (hid : id ∉ l.map Prod.fst) :
    (l.foldl (fun (slots : ι → Option (Surface ρ)) e => Function.update slots e.1 none) slots) id =
      slots id := by
  induction l generalizing slots with
  | nil => rfl
  | cons e rest ih =>
      obtain ⟨hne, hrest⟩ := List.ne_and_not_mem_of_not_mem_cons hid
      rw [List.foldl_cons, ih hrest, Function.update_of_ne hne]

theorem Coherent.collect (h : c.Coherent) (threshold : UInt64) :
    (c.runGarbageCollector threshold).Coherent := by
  have hexpired : ∀ id, id ∉ (c.sentenced.filter fun e => ¬ c.frameTick + 1 - e.2 ≤ threshold).map Prod.fst →
      (c.runGarbageCollector threshold).slots id = c.slots id := fun id hid =>
    foldl_erase_slots hid
  refine ⟨fun n id hn => ?_, fun e he => ?_, h.nodup.sublist (List.filter_sublist.map _)⟩
  · obtain ⟨s, hs, hregistered, -⟩ := h.owned n id hn
    refine (h.owned n id hn).congr (hexpired id fun hmem => h.notMem_sentenced hs hregistered ?_)
    exact (List.filter_sublist.map _).subset hmem
  · obtain ⟨hmem, hkept⟩ := List.mem_filter.mp he
    obtain ⟨s, hs, hregistered⟩ := h.sentenced e hmem
    refine ⟨s, (hexpired e.1 fun hbad => ?_).trans hs, hregistered⟩
    obtain ⟨e', he', heq⟩ := List.mem_map.mp hbad
    obtain ⟨hmem', hexpired'⟩ := List.mem_filter.mp he'
    cases List.inj_on_of_nodup_map h.nodup hmem' hmem heq
    exact absurd hkept (by simpa using hexpired')

end Slots

section Runs

variable [DecidableEq ι] [DecidableEq ρ]

/-- What `ValidateSurface` does to the books of a surface, whatever it finds to validate it from. -/
inductive Validates (id : ι) : RasterizerCache ι ρ → RasterizerCache ι ρ → Prop
  | done {c : RasterizerCache ι ρ} : Validates id c c
  | notify {c c₁ c' : RasterizerCache ι ρ} {interval : Block}
      (hnotify : c.notifyValidated id interval = some c₁) (hrest : Validates id c₁ c') : Validates id c c'
  | flush {c c₁ c' : RasterizerCache ι ρ} {addr size : UInt32}
      (hflush : c.flushRegion addr size none = some c₁) (hrest : Validates id c₁ c') : Validates id c c'
  | upload {c c₁ c' : RasterizerCache ι ρ} {fresh : ι}
      (hupload : c.uploadCustom id fresh = some c₁) (hrest : Validates id c₁ c') : Validates id c c'

/-- A call, as the callers make it: what is registered is not sentenced, what is unregistered owns
nothing, and what gets to own a region is registered. -/
inductive Called : RasterizerCache ι ρ → RasterizerCache ι ρ → Prop
  | create {c c' : RasterizerCache ι ρ} {params : SurfaceParams ρ} {fresh id : ι}
      (hcreate : c.createSurface params fresh = some (id, c')) : Called c c'
  | insert {c c' : RasterizerCache ι ρ} {params : SurfaceParams ρ} {fresh : ι}
      (hinsert : c.insertSurface params fresh = some c') : Called c c'
  | register {c c' : RasterizerCache ι ρ} {id : ι} (hid : id ∉ c.sentenced.map Prod.fst)
      (hregister : c.registerSurface id = some c') : Called c c'
  | unregister {c c' : RasterizerCache ι ρ} {id : ι} (hfree : ∀ n, c.dirtyRegions.value n ≠ some id)
      (hunregister : c.unregisterSurface id = some c') : Called c c'
  | invalidate {c c' : RasterizerCache ι ρ} {addr size : UInt32} {owner : Option ι}
      (hregistered : ∀ id, owner = some id → c.registration id ≠ none)
      (hinvalidate : c.invalidateRegion addr size owner = some c') : Called c c'
  | flush {c c' : RasterizerCache ι ρ} {addr size : UInt32} {owner : Option ι}
      (hflush : c.flushRegion addr size owner = some c') : Called c c'
  | validate {c c' : RasterizerCache ι ρ} {id : ι} (hvalidate : Validates id c c') : Called c c'
  | collect {c : RasterizerCache ι ρ} (threshold : UInt64) : Called c (c.runGarbageCollector threshold)

/-- The caches that calls lead to from one where nothing is dirty or sentenced. -/
inductive Reachable : RasterizerCache ι ρ → Prop
  | start {c : RasterizerCache ι ρ} (hdirty : c.dirtyRegions = .empty) (hsentenced : c.sentenced = []) :
      Reachable c
  | call {c c' : RasterizerCache ι ρ} (hruns : Reachable c) (hcall : Called c c') : Reachable c'

omit [DecidableEq ρ] in
theorem Coherent.flush {addr size : UInt32} {owner : Option ι} (h : c.Coherent)
    (hflush : c.flushRegion addr size owner = some c') : c'.Coherent := by
  obtain ⟨dirtyRegions, heq, hsubset, -⟩ := h.flushRegion_spec addr size owner
  cases Option.some.inj (heq.symm.trans hflush)
  exact ⟨fun n id hn => h.owned n id (hsubset n id hn), h.sentenced, h.nodup⟩

omit [DecidableEq ρ] in
theorem Coherent.validate (h : c.Coherent) (hvalidate : Validates id c c') : c'.Coherent := by
  induction hvalidate with
  | done => exact h
  | notify hnotify hrest ih => exact ih (h.notify hnotify)
  | flush hflush hrest ih => exact ih (h.flush hflush)
  | upload hupload hrest ih => exact ih (h.upload hupload)

theorem Coherent.call (h : c.Coherent) (hcall : Called c c') : c'.Coherent := by
  cases hcall with
  | create hcreate => exact h.create hcreate
  | insert hinsert => exact h.insert hinsert
  | register hid hregister => exact h.register hid hregister
  | unregister hfree hunregister => exact (h.unregister hfree hunregister).1
  | invalidate hregistered hinvalidate => exact h.invalidate hregistered hinvalidate
  | flush hflush => exact h.flush hflush
  | validate hvalidate => exact h.validate hvalidate
  | collect threshold => exact h.collect threshold

theorem Reachable.coherent (h : Reachable c) : c.Coherent := by
  induction h with
  | start hdirty hsentenced =>
      refine ⟨fun n id hn => ?_, fun e he => ?_, ?_⟩
      · rw [hdirty] at hn
        exact nomatch hn
      · rw [hsentenced] at he
        exact absurd he List.not_mem_nil
      · rw [hsentenced]
        exact List.nodup_nil
  | call hruns hcall ih => exact ih.call hcall

end Runs

section Examples

/-- A surface on one page. -/
def page : SurfaceParams Unit := ⟨0x1000, 0x2000, 0x1000, 64, 64, .color, (), by decide⟩

/-- A surface is created, registered, and gets to own its region. -/
def drawn (c : RasterizerCache Nat Unit) : Option (RasterizerCache Nat Unit) := do
  let (id, c) ← c.createSurface page 0
  let c ← c.registerSurface id
  c.invalidateRegion 0x1000 0x1000 (some id)

/-- The owner of a region is unregistered. -/
def forsaken : Option (RasterizerCache Nat Unit) := do
  let c ← drawn {}
  c.unregisterSurface 0

/-- A sentenced surface is registered, gets to own its region, and is taken for a new surface. -/
def revived : Option (RasterizerCache Nat Unit) := do
  let (_, c) ← createSurface {} page 0
  let c ← c.registerSurface 0
  let c ← c.unregisterSurface 0
  let c ← c.registerSurface 0
  let c ← c.invalidateRegion 0x1000 0x1000 (some 0)
  let (_, c) ← c.createSurface page 1
  return c

/-- A surface that is not registered gets to own its region. -/
def unlisted : Option (RasterizerCache Nat Unit) := do
  let (_, c) ← createSurface {} page 0
  c.invalidateRegion 0x1000 0x1000 (some 0)

end Examples

end RasterizerCache

end Cytrus.VideoCore
