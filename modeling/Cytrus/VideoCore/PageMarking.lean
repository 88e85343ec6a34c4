import Mathlib
import Cytrus.VideoCore.RasterizerCache

/-!
# Marking the pages of surfaces

Registering a surface counts it on its pages, and a page is marked when its
count leaves zero and unmarked when it comes back to it.

## Main results

* `pageMarking`: pages are marked, and surfaces listed, as long as they are registered
-/

namespace Cytrus.VideoCore

open Support

/-- The call is about the page. -/
def Mark.Covers (m : Mark) (page : Nat) : Prop :=
  m.start.toNat ≤ page * 4096 ∧ page * 4096 < m.start.toNat + m.size.toNat

instance (m : Mark) (page : Nat) : Decidable (m.Covers page) := inferInstanceAs (Decidable (_ ∧ _))

/-- What the calls said of a page, in order. -/
def history (marks : List Mark) (page : Nat) : List Bool :=
  (marks.filter (·.Covers page)).map Mark.cached

section History

variable {marks : List Mark} {m : Mark} {page : Nat}

theorem history_append : history (marks ++ [m]) page =
    history marks page ++ if m.Covers page then [m.cached] else [] := by
  rw [history, List.filter_append, List.map_append]
  by_cases h : m.Covers page <;> simp [h, history]

theorem toNat_pageAddr {page : Nat} (h : page ≤ 2 ^ 20) :
    (UInt32.ofNat page <<< 12).toNat = page * 4096 % 2 ^ 32 := by
  have hshift : (12 : UInt32).toNat % 32 = 12 := rfl
  rw [UInt32.toNat_shiftLeft, UInt32.toNat_ofNat', Nat.mod_eq_of_lt (by omega : page < 2 ^ 32), hshift,
    Nat.shiftLeft_eq]

/-- The call for a range of pages is about these pages, unless they are all the pages there are. -/
theorem covers_range {lower upper : Nat} {cached : Bool} (hlt : lower < upper) (hupper : upper ≤ 2 ^ 20)
    (hsmall : upper - lower < 2 ^ 20) :
    Mark.Covers ⟨UInt32.ofNat lower <<< 12,
        (UInt32.ofNat upper <<< 12) - (UInt32.ofNat lower <<< 12), cached⟩ page ↔
      lower ≤ page ∧ page < upper := by
  have hlower := @toNat_pageAddr lower (by omega)
  have hupper' := toNat_pageAddr hupper
  have hstart : (UInt32.ofNat lower <<< 12).toNat = lower * 4096 := by
    rw [hlower, Nat.mod_eq_of_lt (by omega)]
  have hsize : ((UInt32.ofNat upper <<< 12) - (UInt32.ofNat lower <<< 12)).toNat =
      (upper - lower) * 4096 := by
    rw [UInt32.toNat_sub, hstart, hupper']
    omega
  rw [Mark.Covers, hstart, hsize]
  omega

end History

section Walk

variable {delta : Int} {pages : Block} {marks : List Mark} {l : List (MapSegment Int)} {b page : Nat}

theorem markSegment_eq (hdelta : delta ≠ 0) (segment : MapSegment Int) :
    markSegment delta pages marks segment =
      let interval := intersection ⟨segment.lower, segment.upper⟩ pages
      if segment.value = |delta| then
        some (marks ++ [⟨UInt32.ofNat interval.lower <<< 12,
          (UInt32.ofNat interval.upper <<< 12) - (UInt32.ofNat interval.lower <<< 12), decide (0 < delta)⟩])
      else if 0 ≤ segment.value then some marks
      else none := by
  rcases lt_or_gt_of_ne hdelta with hneg | hpos
  · simp [markSegment, hneg, not_lt.mpr hneg.le, abs_of_neg hneg]
  · simp [markSegment, hpos, not_lt.mpr hpos.le, abs_of_pos hpos]

/-- The walk calls once for every page with the count. -/
theorem walk_history (hdelta : delta ≠ 0) (hupper : pages.upper ≤ 2 ^ 20)
    (hsmall : pages.upper - pages.lower < 2 ^ 20) (hl : MapSegment.Ordered b l)
    (hover : ∀ s ∈ l, s.lower < pages.upper ∧ pages.lower < s.upper ∧ pages.lower < pages.upper)
    (hcount : ∀ s ∈ l, 0 ≤ s.value) :
    ∃ marks', l.foldlM (markSegment delta pages) marks = some marks' ∧
      ∀ page, history marks' page = history marks page ++
        if (pages.lower ≤ page ∧ page < pages.upper) ∧ MapSegment.lookup l page = some |delta| then
          [decide (0 < delta)] else [] := by
  induction l generalizing b marks with
  | nil => exact ⟨marks, rfl, fun page => by simp⟩
  | cons s rest ih =>
      obtain ⟨hb, hs, hrest⟩ := hl
      obtain ⟨hlow, hhigh, hpages⟩ := hover s (List.mem_cons_self ..)
      have hbehind {page : Nat} (hpage : page < s.upper) : MapSegment.lookup rest page = none :=
        hrest.lookup_of_lt hpage
      obtain ⟨marks₁, hmark, hhistory⟩ : ∃ marks₁, markSegment delta pages marks s = some marks₁ ∧
          ∀ page, history marks₁ page = history marks page ++
            if (pages.lower ≤ page ∧ page < pages.upper) ∧ s.Contains page ∧ s.value = |delta| then
              [decide (0 < delta)] else [] := by
        rw [markSegment_eq hdelta]
        dsimp only
        by_cases hvalue : s.value = |delta|
        · refine ⟨_, if_pos hvalue, fun page => ?_⟩
          rw [history_append]
          refine congrArg _ (if_congr ?_ rfl rfl)
          rw [covers_range (by simp only [intersection]; omega) (by simp only [intersection]; omega)
            (by simp only [intersection]; omega)]
          simp only [intersection, MapSegment.Contains, hvalue, and_true]
          omega
        · refine ⟨marks, ?_, fun page => ?_⟩
          · rw [if_neg hvalue, if_pos (hcount s (List.mem_cons_self ..))]
          · rw [if_neg fun h => hvalue h.2.2, List.append_nil]
      obtain ⟨marks', hfold, hhistory'⟩ := @ih marks₁ s.upper hrest
        (fun t ht => hover t (List.mem_cons_of_mem _ ht)) fun t ht => hcount t (List.mem_cons_of_mem _ ht)
      refine ⟨marks', ?_, fun page => ?_⟩
      · rw [List.foldlM_cons, hmark]
        exact hfold
      · rw [hhistory', hhistory, MapSegment.lookup_cons]
        by_cases hcontains : s.Contains page
        · simp [hcontains, hbehind hcontains.2]
        · simp [hcontains]

end Walk

/-- A region without a 32-bit wrap, neither of its end nor of the size of its pages in bytes. -/
structure Fits (addr size : UInt32) : Prop where
  size_pos : 0 < size.toNat
  noWrap : addr.toNat + size.toNat ≤ 2 ^ 32
  noWrap_pages : ((addr.toNat + size.toNat - 1) / 2 ^ 12 + 1 - addr.toNat / 2 ^ 12) * 2 ^ 12 < 2 ^ 32

/-- The region has bytes on the page, of so many bits. -/
def OnPage (bits : Nat) (addr size : UInt32) (page : Nat) : Prop :=
  addr.toNat / 2 ^ bits ≤ page ∧ page ≤ (addr.toNat + size.toNat - 1) / 2 ^ bits

instance (bits : Nat) (addr size : UInt32) (page : Nat) : Decidable (OnPage bits addr size page) :=
  inferInstanceAs (Decidable (_ ∧ _))

section Pages

variable {addr size : UInt32} {page : Nat}

theorem Fits.toNat_last (h : Fits addr size) :
    (addr + size - 1).toNat = addr.toNat + size.toNat - 1 := by
  have hpos := h.size_pos
  have hwrap := h.noWrap
  have hone : (1 : UInt32).toNat = 1 := rfl
  rw [UInt32.toNat_sub, UInt32.toNat_add, hone]
  omega

theorem Fits.pagesInterval_eq (h : Fits addr size) :
    pagesInterval addr size =
      ⟨addr.toNat / 2 ^ 12, (addr.toNat + size.toNat - 1) / 2 ^ 12 + 1⟩ := by
  have hpos := h.size_pos
  have hwrap := h.noWrap
  have hlast : ((addr + size - 1) >>> 12).toNat = (addr.toNat + size.toNat - 1) / 2 ^ 12 := by
    rw [UInt32.toNat_shiftRight, h.toNat_last]
    exact Nat.shiftRight_eq_div_pow ..
  have hfirst : (addr >>> 12).toNat = addr.toNat / 2 ^ 12 := by
    rw [UInt32.toNat_shiftRight]
    exact Nat.shiftRight_eq_div_pow ..
  have hone : (1 : UInt32).toNat = 1 := rfl
  rw [pagesInterval, Block.mk.injEq, UInt32.toNat_add, UInt32.toNat_add, UInt32.toNat_sub, hlast, hfirst,
    hone]
  omega

theorem Fits.upper_le (h : Fits addr size) : (pagesInterval addr size).upper ≤ 2 ^ 20 := by
  have hwrap := h.noWrap
  rw [h.pagesInterval_eq]
  dsimp only
  omega

theorem Fits.length_lt (h : Fits addr size) :
    (pagesInterval addr size).upper - (pagesInterval addr size).lower < 2 ^ 20 := by
  have hpages := h.noWrap_pages
  rw [h.pagesInterval_eq]
  dsimp only
  omega

theorem Fits.mem_pagesInterval (h : Fits addr size) :
    (pagesInterval addr size).lower ≤ page ∧ page < (pagesInterval addr size).upper ↔
      OnPage 12 addr size page := by
  rw [h.pagesInterval_eq, OnPage]
  dsimp only
  omega

theorem Fits.mem_pagesOf (h : Fits addr size) : page ∈ pagesOf addr size ↔ OnPage 18 addr size page := by
  have hpos := h.size_pos
  have hwrap := h.noWrap
  have hlast : (addr.toNat + size.toNat + (2 ^ 64 - 1)) % 2 ^ 64 = addr.toNat + size.toNat - 1 := by omega
  rw [pagesOf, List.mem_range'_1, hlast, Nat.shiftRight_eq_div_pow, Nat.shiftRight_eq_div_pow, OnPage]
  omega

end Pages

/-- Every count is positive. -/
def Positive (counts : IntervalMap Int) : Prop := ∀ page v, counts.value page = some v → 0 < v

section Counts

variable {counts : IntervalMap Int} {lo hi page : Nat}

theorem Positive.value_iff (h : Positive counts) : counts.value page = none ↔ (counts.value page).getD 0 = 0 := by
  cases hv : counts.value page with
  | none => simp
  | some v => simp [(h page v hv).ne']

theorem Positive.nonneg (h : Positive counts) {s : MapSegment Int} (hs : s ∈ counts.overlapping lo hi) :
    0 ≤ s.value := by
  have hmem := (IntervalMap.mem_overlapping.mp hs).1
  have hbounds := counts.ordered.bounds hmem
  exact (h s.lower s.value (IntervalMap.value_eq_some.mpr ⟨s, hmem, ⟨le_rfl, hbounds.2⟩, rfl⟩)).le

theorem Positive.add_one (h : Positive counts) : Positive (counts.add lo hi 1) := by
  intro page v hv
  rw [IntervalMap.value_add] at hv
  split at hv
  · have hold : 0 ≤ (counts.value page).getD 0 := by
      cases hc : counts.value page with
      | none => exact le_rfl
      | some w => exact (h page w hc).le
    rw [if_neg (by omega)] at hv
    have hsum := Option.some.inj hv
    omega
  · exact h page v hv

theorem Positive.sub_one (h : Positive counts)
    (hcounted : ∀ page, lo ≤ page ∧ page < hi → counts.value page ≠ none) :
    Positive (counts.add lo hi (-1)) := by
  intro page v hv
  rw [IntervalMap.value_add] at hv
  split at hv
  · obtain ⟨w, hw⟩ := Option.ne_none_iff_exists'.mp (hcounted page ‹_›)
    have hpos := h page w hw
    rw [hw, Option.getD_some] at hv
    split at hv
    · exact nomatch hv
    · have hsum := Option.some.inj hv
      omega
  · exact h page v hv

end Counts

namespace RasterizerCache

variable {ι ρ : Type} {c c' : RasterizerCache ι ρ} {addr size : UInt32}

theorem overlapping_bounds {counts : IntervalMap Int} {lo hi : Nat} :
    ∀ s ∈ counts.overlapping lo hi, s.lower < hi ∧ lo < s.upper ∧ lo < hi :=
  fun _ hs => (IntervalMap.mem_overlapping.mp hs).2

theorem updatePagesCachedCount_one (hfits : Fits addr size) (hpos : Positive c.cachedPages) :
    ∃ marks, c.updatePagesCachedCount addr size 1 =
        some { c with
          cachedPages := c.cachedPages.add (pagesInterval addr size).lower (pagesInterval addr size).upper 1
          marks := marks } ∧
      ∀ page, history marks page = history c.marks page ++
        if OnPage 12 addr size page ∧ c.cachedPages.value page = none then [true] else [] := by
  have hpos' : Positive (c.cachedPages.add (pagesInterval addr size).lower (pagesInterval addr size).upper 1) :=
    hpos.add_one
  obtain ⟨marks, hwalk, hhistory⟩ := @walk_history 1 (pagesInterval addr size) c.marks _ 0 one_ne_zero
    hfits.upper_le hfits.length_lt IntervalMap.ordered_overlapping overlapping_bounds
    fun s hs => hpos'.nonneg hs
  refine ⟨marks, ?_, fun page => ?_⟩
  · simp only [updatePagesCachedCount, one_pos, if_true, hwalk, Option.bind_eq_bind, Option.bind_some]
    rfl
  · rw [hhistory]
    refine congrArg _ (if_congr ?_ rfl rfl)
    have hon := @Fits.mem_pagesInterval addr size page hfits
    rw [hon]
    refine and_congr_right fun hin => ?_
    rw [IntervalMap.lookup_overlapping (hon.mpr hin).1 (hon.mpr hin).2, IntervalMap.value_add,
      if_pos (hon.mpr hin), hpos.value_iff]
    split
    · exact iff_of_false (Option.some_ne_none _).symm (by omega)
    · rw [abs_one, Option.some.injEq]
      omega

theorem updatePagesCachedCount_neg_one (hfits : Fits addr size) (hpos : Positive c.cachedPages) :
    ∃ marks, c.updatePagesCachedCount addr size (-1) =
        some { c with
          cachedPages :=
            c.cachedPages.add (pagesInterval addr size).lower (pagesInterval addr size).upper (-1)
          marks := marks } ∧
      ∀ page, history marks page = history c.marks page ++
        if OnPage 12 addr size page ∧ c.cachedPages.value page = some 1 then [false] else [] := by
  obtain ⟨marks, hwalk, hhistory⟩ := @walk_history (-1) (pagesInterval addr size) c.marks _ 0 (by decide)
    hfits.upper_le hfits.length_lt IntervalMap.ordered_overlapping overlapping_bounds
    fun s hs => hpos.nonneg hs
  refine ⟨marks, ?_, fun page => ?_⟩
  · have hneg : ¬ (0 : Int) < -1 := by decide
    have hlt : (-1 : Int) < 0 := by decide
    simp only [updatePagesCachedCount, hneg, hlt, if_false, if_true, hwalk, Option.bind_eq_bind,
      Option.bind_some]
    rfl
  · rw [hhistory]
    refine congrArg _ (if_congr ?_ rfl rfl)
    have hon := @Fits.mem_pagesInterval addr size page hfits
    rw [hon]
    refine and_congr_right fun hin => ?_
    rw [IntervalMap.lookup_overlapping (hon.mpr hin).1 (hon.mpr hin).2]
    rfl

/-- A registered surface is on the page. -/
def isOnPage (c : RasterizerCache ι ρ) (bits page : Nat) (id : ι) : Bool :=
  (c.registration id).any fun region => OnPage bits region.1 region.2 page

/-- The books agree about the registered surfaces. -/
structure Agree (c : RasterizerCache ι ρ) (ids : Finset ι) : Prop where
  registered : ∀ id, id ∈ ids ↔ c.registration id ≠ none
  fits : ∀ id region, c.registration id = some region → Fits region.1 region.2
  positive : Positive c.cachedPages
  count : ∀ page, (c.cachedPages.value page).getD 0 = (ids.filter (c.isOnPage 12 page ·)).card
  alternates : ∀ page, (history c.marks page).IsChain (· ≠ ·) ∧ (history c.marks page).head? ≠ some false
  marked : ∀ page, (history c.marks page).getLast? = some true ↔ c.cachedPages.value page ≠ none
  listed : c.Listed

variable [DecidableEq ι] {id : ι} {s : Surface ρ} {ids : Finset ι} {region : UInt32 × UInt32}

theorem isOnPage_update {bits page : Nat} {o : Option (UInt32 × UInt32)}
    (h : c'.registration = Function.update c.registration id o) (other : ι) :
    c'.isOnPage bits page other =
      if other = id then o.any fun region => OnPage bits region.1 region.2 page
      else c.isOnPage bits page other := by
  rw [isOnPage, h]
  split
  · next heq => rw [heq, Function.update_self]
  · next hne => rw [Function.update_of_ne hne, isOnPage]

theorem card_insert (hid : id ∉ ids)
    (h : c'.registration = Function.update c.registration id (some region)) (page : Nat) :
    ((insert id ids).filter (c'.isOnPage 12 page ·)).card =
      (ids.filter (c.isOnPage 12 page ·)).card + if OnPage 12 region.1 region.2 page then 1 else 0 := by
  have hothers : ids.filter (c'.isOnPage 12 page ·) = ids.filter (c.isOnPage 12 page ·) := by
    refine Finset.filter_congr fun other hother => ?_
    have hne : other ≠ id := fun heq => hid (heq ▸ hother)
    rw [isOnPage_update h, if_neg hne]
  rw [Finset.filter_insert, isOnPage_update h, if_pos rfl, hothers]
  by_cases hon : OnPage 12 region.1 region.2 page
  · simp [hon, hid]
  · simp [hon]

theorem card_erase (hid : id ∈ ids) (hold : c.registration id = some region)
    (h : c'.registration = Function.update c.registration id none) (page : Nat) :
    ((ids.erase id).filter (c'.isOnPage 12 page ·)).card + (if OnPage 12 region.1 region.2 page then 1 else 0) =
      (ids.filter (c.isOnPage 12 page ·)).card := by
  have hback : c.registration = Function.update c'.registration id (some region) := by
    rw [h, Function.update_idem, ← hold, Function.update_eq_self]
  have hinsert := @card_insert ι ρ c' c _ id (ids.erase id) region (Finset.notMem_erase id ids) hback page
  rw [Finset.insert_erase hid] at hinsert
  exact hinsert.symm

theorem alternates_append {l : List Bool} {x : Bool} (h : l.IsChain (· ≠ ·) ∧ l.head? ≠ some false)
    (hlast : l.getLast? = some true ↔ x = false) :
    (l ++ [x]).IsChain (· ≠ ·) ∧ (l ++ [x]).head? ≠ some false := by
  rcases List.eq_nil_or_concat' l with rfl | ⟨front, y, rfl⟩
  · cases x with
    | false => exact absurd (hlast.mpr rfl) nofun
    | true => exact ⟨.singleton _, nofun⟩
  · rw [List.getLast?_concat, Option.some.injEq] at hlast
    refine ⟨List.isChain_append.mpr ⟨h.1, .singleton _, ?_⟩, ?_⟩
    · intro y' hy' x' hx' heq
      cases Option.some.inj ((List.getLast?_concat ..).symm.trans hy')
      cases Option.some.inj hx'
      cases y <;> cases x <;> simp_all
    · rw [List.head?_append_of_ne_nil _ (by simp)]
      exact h.2

omit [DecidableEq ι] in
theorem Agree.nonneg (h : c.Agree ids) (page : Nat) : 0 ≤ (c.cachedPages.value page).getD 0 := by
  rw [h.count]
  exact Int.natCast_nonneg _

theorem value_pagesInterval {addr size : UInt32} {delta : Int} {counts : IntervalMap Int}
    (hfits : Fits addr size) (page : Nat) :
    ((counts.add (pagesInterval addr size).lower (pagesInterval addr size).upper delta).value page).getD 0 =
      (counts.value page).getD 0 + if OnPage 12 addr size page then delta else 0 := by
  rw [IntervalMap.getD_value_add, ite_congr (propext hfits.mem_pagesInterval) (fun _ => rfl) fun _ => rfl]
  split
  · rfl
  · rw [add_zero]

theorem Agree.register (h : c.Agree ids) (hs : c.slots id = some s) (hnone : s.registered = false)
    (hfits : Fits s.addr s.size) :
    ∃ c', c.registerSurface id = some c' ∧ c'.Agree (insert id ids) := by
  obtain ⟨marks, hcount, hwalk⟩ := @updatePagesCachedCount_one ι ρ
    (c.setSlot id (some { s with registered := true })) s.addr s.size hfits h.positive
  have hhistory (page : Nat) : history marks page = history c.marks page ++
      if OnPage 12 s.addr s.size page ∧ c.cachedPages.value page = none then [true] else [] := hwalk page
  have hregister : ∃ c', c.registerSurface id = some c' ∧
      c'.cachedPages = c.cachedPages.add (pagesInterval s.addr s.size).lower
        (pagesInterval s.addr s.size).upper 1 ∧ c'.marks = marks := by
    refine ⟨{ c with
      slots := Function.update c.slots id (some { s with registered := true })
      cachedPages := c.cachedPages.add (pagesInterval s.addr s.size).lower
        (pagesInterval s.addr s.size).upper 1
      marks := marks
      pageTable := (pagesOf s.addr s.size).foldl (pushPage id) c.pageTable }, ?_, rfl, rfl⟩
    simp only [registerSurface, hs, hnone, hcount, Option.bind_eq_bind, Option.bind_some]
    rfl
  obtain ⟨c', hc', hpages, hmarks⟩ := hregister
  obtain ⟨s', hs', -, hregistration⟩ := registration_register hc'
  cases Option.some.inj (hs.symm.trans hs')
  have hid : id ∉ ids := fun hin =>
    (h.registered id).mp hin (registration_of_unregistered hs hnone)
  have hpositive : Positive c'.cachedPages := hpages ▸ h.positive.add_one
  have hvalue (page : Nat) : (c'.cachedPages.value page).getD 0 =
      (c.cachedPages.value page).getD 0 + if OnPage 12 s.addr s.size page then 1 else 0 :=
    hpages ▸ value_pagesInterval hfits page
  refine ⟨c', hc', ?_, ?_, hpositive, ?_, ?_, ?_, h.listed.register hc'⟩
  · intro other
    rw [hregistration, Finset.mem_insert]
    rcases eq_or_ne other id with rfl | hne
    · rw [Function.update_self]
      exact iff_of_true (.inl rfl) (Option.some_ne_none _)
    · rw [Function.update_of_ne hne, or_iff_right hne]
      exact h.registered other
  · intro other region hregion
    rw [hregistration] at hregion
    rcases eq_or_ne other id with rfl | hne
    · rw [Function.update_self] at hregion
      cases Option.some.inj hregion
      exact hfits
    · rw [Function.update_of_ne hne] at hregion
      exact h.fits other region hregion
  · intro page
    rw [hvalue, h.count, card_insert hid hregistration]
    push_cast
    rfl
  · intro page
    rw [hmarks, hhistory]
    split
    · next hfirst => exact alternates_append (h.alternates page) (by simp [h.marked, hfirst.2])
    · rw [List.append_nil]
      exact h.alternates page
  · intro page
    have hnonneg := h.nonneg page
    rw [hmarks, hhistory, ne_eq, hpositive.value_iff, hvalue]
    by_cases hfirst : OnPage 12 s.addr s.size page ∧ c.cachedPages.value page = none
    · rw [if_pos hfirst, if_pos hfirst.1, List.getLast?_concat]
      exact iff_of_true rfl (by omega)
    · rw [if_neg hfirst, List.append_nil, h.marked, ne_eq, h.positive.value_iff]
      by_cases hon : OnPage 12 s.addr s.size page
      · have hcounted := fun hzero => hfirst ⟨hon, h.positive.value_iff.mpr hzero⟩
        rw [if_pos hon]
        exact iff_of_true hcounted (by omega)
      · rw [if_neg hon, add_zero]

theorem Agree.unregister (h : c.Agree ids) (hs : c.slots id = some s) (hsome : s.registered = true) :
    ∃ c', c.unregisterSurface id = some c' ∧ c'.Agree (ids.erase id) := by
  have hregion := registration_of_registered hs hsome
  have hfits : Fits s.addr s.size := h.fits id _ hregion
  have hid : id ∈ ids := (h.registered id).mpr (by rw [hregion]; exact Option.some_ne_none _)
  obtain ⟨marks, hcount, hwalk⟩ := @updatePagesCachedCount_neg_one ι ρ
    (c.setSlot id (some { s with registered := false })) s.addr s.size hfits h.positive
  have hhistory (page : Nat) : history marks page = history c.marks page ++
      if OnPage 12 s.addr s.size page ∧ c.cachedPages.value page = some 1 then [false] else [] := hwalk page
  have hlisted : ∀ page ∈ pagesOf s.addr s.size, id ∈ (c.pageTable page).getD [] := fun page hpage =>
    ((h.listed page).2 id).mpr ⟨_, hregion, hpage⟩
  obtain ⟨pageTable, hpages, -⟩ := foldlM_erasePage (nodup_pagesOf s.addr s.size) hlisted
  obtain ⟨c', hc', hcounts, hmarks⟩ := unregisterSurface_of_calls hs hsome hcount hpages
  obtain ⟨s', hs', -, hregistration⟩ := registration_unregister hc'
  cases Option.some.inj (hs.symm.trans hs')
  have hvalue (page : Nat) : (c'.cachedPages.value page).getD 0 =
      (c.cachedPages.value page).getD 0 + if OnPage 12 s.addr s.size page then -1 else 0 :=
    hcounts ▸ value_pagesInterval hfits page
  have hcard (page : Nat) : (((ids.erase id).filter (c'.isOnPage 12 page ·)).card : Int) +
      (if OnPage 12 s.addr s.size page then 1 else 0) = (c.cachedPages.value page).getD 0 := by
    rw [h.count, ← card_erase hid hregion hregistration]
    push_cast
    rfl
  have hcounted {page : Nat} (hon : OnPage 12 s.addr s.size page) : c.cachedPages.value page ≠ none := by
    have hpage := hcard page
    rw [if_pos hon] at hpage
    rw [ne_eq, h.positive.value_iff]
    omega
  have hpositive : Positive c'.cachedPages :=
    hcounts ▸ h.positive.sub_one fun page hpage => hcounted (hfits.mem_pagesInterval.mp hpage)
  refine ⟨c', hc', ?_, ?_, hpositive, ?_, ?_, ?_, h.listed.unregister hc'⟩
  · intro other
    rw [hregistration, Finset.mem_erase]
    rcases eq_or_ne other id with rfl | hne
    · rw [Function.update_self]
      exact iff_of_false (fun hin => hin.1 rfl) fun hnone => hnone rfl
    · rw [Function.update_of_ne hne, and_iff_right hne]
      exact h.registered other
  · intro other region hregion
    rw [hregistration] at hregion
    rcases eq_or_ne other id with rfl | hne
    · rw [Function.update_self] at hregion
      exact nomatch hregion
    · rw [Function.update_of_ne hne] at hregion
      exact h.fits other region hregion
  · intro page
    have hpage := hcard page
    rw [hvalue]
    by_cases hon : OnPage 12 s.addr s.size page
    · rw [if_pos hon] at hpage ⊢
      omega
    · rw [if_neg hon] at hpage ⊢
      omega
  · intro page
    rw [hmarks, hhistory]
    split
    · next hlast => exact alternates_append (h.alternates page) (by simp [h.marked, hlast.2])
    · rw [List.append_nil]
      exact h.alternates page
  · intro page
    rw [hmarks, hhistory, ne_eq, hpositive.value_iff, hvalue]
    by_cases hlast : OnPage 12 s.addr s.size page ∧ c.cachedPages.value page = some 1
    · rw [if_pos hlast, if_pos hlast.1, List.getLast?_concat, hlast.2]
      exact iff_of_false nofun fun hne => hne rfl
    · rw [if_neg hlast, List.append_nil, h.marked, ne_eq, h.positive.value_iff]
      by_cases hon : OnPage 12 s.addr s.size page
      · obtain ⟨v, hv⟩ := Option.ne_none_iff_exists'.mp (hcounted hon)
        have hpos := h.positive page v hv
        have hne : v ≠ 1 := fun hone => hlast ⟨hon, hone ▸ hv⟩
        rw [if_pos hon, hv, Option.getD_some]
        omega
      · rw [if_neg hon, add_zero]

/-- The caches that register and unregister surfaces, in between whatever leaves the books alone. -/
inductive Registers : RasterizerCache ι ρ → Prop
  | start {c : RasterizerCache ι ρ} (hslots : ∀ id, c.registration id = none)
      (hpages : ∀ page, c.pageTable page = none) (hcounts : c.cachedPages = .empty) (hmarks : c.marks = []) :
      Registers c
  | register {c c' : RasterizerCache ι ρ} {id : ι} {s : Surface ρ} (hruns : Registers c)
      (hs : c.slots id = some s) (hfits : Fits s.addr s.size) (hregister : c.registerSurface id = some c') :
      Registers c'
  | unregister {c c' : RasterizerCache ι ρ} {id : ι} (hruns : Registers c)
      (hunregister : c.unregisterSurface id = some c') : Registers c'
  | other {c c' : RasterizerCache ι ρ} (hruns : Registers c) (hslots : c'.registration = c.registration)
      (hpages : c'.pageTable = c.pageTable) (hcounts : c'.cachedPages = c.cachedPages)
      (hmarks : c'.marks = c.marks) : Registers c'

omit [DecidableEq ι] in
theorem Agree.start (hslots : ∀ id, c.registration id = none) (hpages : ∀ page, c.pageTable page = none)
    (hcounts : c.cachedPages = .empty) (hmarks : c.marks = []) : c.Agree ∅ where
  registered id := iff_of_false (Finset.notMem_empty id) fun hne => hne (hslots id)
  fits id region hregion := nomatch (hslots id).symm.trans hregion
  positive page v hv := by
    rw [hcounts] at hv
    exact nomatch hv
  count page := by rw [hcounts]; rfl
  alternates page := by rw [hmarks]; exact ⟨.nil, nofun⟩
  marked page := by rw [hmarks, hcounts]; exact iff_of_false nofun fun hne => hne rfl
  listed page := by
    rw [hpages]
    refine ⟨List.nodup_nil, fun id => iff_of_false List.not_mem_nil ?_⟩
    rintro ⟨region, hregion, -⟩
    exact nomatch (hslots id).symm.trans hregion

omit [DecidableEq ι] in
theorem Agree.other (h : c.Agree ids) (hslots : c'.registration = c.registration)
    (hpages : c'.pageTable = c.pageTable) (hcounts : c'.cachedPages = c.cachedPages)
    (hmarks : c'.marks = c.marks) : c'.Agree ids where
  registered := hslots ▸ h.registered
  fits := hslots ▸ h.fits
  positive := hcounts ▸ h.positive
  count page := by
    have hon : c'.isOnPage 12 page = c.isOnPage 12 page := funext fun id => by rw [isOnPage, hslots, isOnPage]
    rw [hcounts, h.count, hon]
  alternates := hmarks ▸ h.alternates
  marked := by rw [hmarks, hcounts]; exact h.marked
  listed := h.listed.congr hpages hslots

theorem Registers.agree (h : Registers c) : ∃ ids, c.Agree ids := by
  induction h with
  | start hslots hpages hcounts hmarks => exact ⟨∅, .start hslots hpages hcounts hmarks⟩
  | register hruns hs hfits hregister ih =>
      obtain ⟨ids, hagree⟩ := ih
      obtain ⟨s', -, -, hs', hnone, -⟩ := registerSurface_cases hregister
      cases Option.some.inj (hs.symm.trans hs')
      obtain ⟨c', hc', hagree'⟩ := hagree.register hs hnone hfits
      cases Option.some.inj (hregister.symm.trans hc')
      exact ⟨_, hagree'⟩
  | unregister hruns hunregister ih =>
      obtain ⟨ids, hagree⟩ := ih
      obtain ⟨s, -, -, -, hs, hsome, -⟩ := unregisterSurface_cases hunregister
      obtain ⟨c', hc', hagree'⟩ := hagree.unregister hs hsome
      cases Option.some.inj (hunregister.symm.trans hc')
      exact ⟨_, hagree'⟩
  | other hruns hslots hpages hcounts hmarks ih =>
      obtain ⟨ids, hagree⟩ := ih
      exact ⟨ids, hagree.other hslots hpages hcounts hmarks⟩

omit [DecidableEq ι] in
theorem Agree.counted (h : c.Agree ids) (page : Nat) :
    c.cachedPages.value page ≠ none ↔ ∃ id, c.isOnPage 12 page id = true := by
  have hcount := h.count page
  rw [ne_eq, h.positive.value_iff, hcount, Nat.cast_eq_zero, Finset.card_eq_zero,
    ← ne_eq, ← Finset.nonempty_iff_ne_empty]
  constructor
  · rintro ⟨id, hid⟩
    exact ⟨id, (Finset.mem_filter.mp hid).2⟩
  · rintro ⟨id, hon⟩
    refine ⟨id, Finset.mem_filter.mpr ⟨(h.registered id).mpr fun hnone => ?_, hon⟩⟩
    rw [isOnPage, hnone] at hon
    exact nomatch hon

omit [DecidableEq ι] in
theorem Agree.mem_pageTable (h : c.Agree ids) (page : Nat) (id : ι) :
    id ∈ (c.pageTable page).getD [] ↔ c.isOnPage 18 page id = true := by
  rw [(h.listed page).2, isOnPage, Option.any_eq_true]
  refine exists_congr fun region => and_congr_right fun hregion => ?_
  rw [(h.fits id region hregion).mem_pagesOf, decide_eq_true_iff]

/-- Pages are marked, and surfaces listed, as long as they are registered. -/
theorem pageMarking (h : Registers c) :
    (∀ page, (history c.marks page).getLast? = some true ↔ ∃ id, c.isOnPage 12 page id = true) ∧
      (∀ page, ((c.pageTable page).getD []).Nodup ∧
        ∀ id, id ∈ (c.pageTable page).getD [] ↔ c.isOnPage 18 page id = true) ∧
      (∀ page, (history c.marks page).IsChain (· ≠ ·) ∧ (history c.marks page).head? ≠ some false) ∧
      (∀ id s, c.slots id = some s → s.registered = false → Fits s.addr s.size →
        (c.registerSurface id).isSome) ∧
      ∀ id s, c.slots id = some s → s.registered = true → (c.unregisterSurface id).isSome := by
  obtain ⟨ids, hagree⟩ := h.agree
  refine ⟨fun page => (hagree.marked page).trans (hagree.counted page),
    fun page => ⟨(hagree.listed page).1, hagree.mem_pageTable page⟩, hagree.alternates,
    fun id s hs hnone hfits => ?_, fun id s hs hsome => ?_⟩
  · obtain ⟨c', hc', -⟩ := hagree.register hs hnone hfits
    rw [hc']
    rfl
  · obtain ⟨c', hc', -⟩ := hagree.unregister hs hsome
    rw [hc']
    rfl

/-- Two surfaces, of which the first ends and the second starts on the page 2. -/
def apart : RasterizerCache Nat Unit where
  slots id :=
    if id = 0 then some ⟨⟨0x1800, 0x2800, 0x1000, 64, 64, .color, (), by decide⟩, false, .empty⟩
    else if id = 1 then some ⟨⟨0x2800, 0x3800, 0x1000, 64, 64, .color, (), by decide⟩, false, .empty⟩
    else none

/-- The first one is registered. -/
def alone : RasterizerCache Nat Unit := (apart.registerSurface 0).getD apart

/-- Both are registered. -/
def shared : RasterizerCache Nat Unit := (alone.registerSurface 1).getD alone

theorem pageMarking_shared :
    history shared.marks 1 = [true] ∧ history shared.marks 2 = [true] ∧
      ∃ id, shared.isOnPage 12 2 id = true := by
  have hstart : Registers apart := by
    refine .start (fun id => ?_) (fun _ => rfl) rfl rfl
    rw [registration]
    dsimp only [apart]
    split
    · rfl
    · split <;> rfl
  have hregister : apart.registerSurface 0 = some alone :=
    (Option.getD_of_ne_none (by decide) _).symm
  have hfirst : Registers alone := .register hstart rfl ⟨by decide, by decide, by decide⟩ hregister
  have hslot : alone.slots 1 = apart.slots 1 := by
    obtain ⟨s, cachedPages, marks, -, -, halone⟩ := registerSurface_cases hregister
    rw [halone]
    rfl
  have hsecond : Registers shared := .register hfirst hslot ⟨by decide, by decide, by decide⟩
    (Option.getD_of_ne_none (by decide) _).symm
  exact ⟨by decide, by decide, ((pageMarking hsecond).1 2).mp (by decide)⟩

end RasterizerCache

end Cytrus.VideoCore
