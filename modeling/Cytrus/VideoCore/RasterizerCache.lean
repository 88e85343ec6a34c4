import Cytrus.Support.IntervalMap
import Cytrus.Support.IntervalSet

/-!
# The books of the rasterizer cache

The surfaces that mirror guest memory on the host: which of them are registered,
on which pages, which of their bytes are valid, and which surface owns a region
that memory does not have yet.

## Implementation notes

A failed assertion, an index of an erased slot and an iterator that is read at
its end have no result. Transfers of pixels and texture cubes are left out, and
so are the framebuffers that the garbage collector removes.
-/

namespace Cytrus.VideoCore

open Support
open Function (update_of_ne update_self)

inductive SurfaceType where
  | color | texture | depth | depthStencil | fill | invalid
deriving DecidableEq

/-- `SurfaceParams` of a surface, without `res_scale` and what `UpdateParams` computes of the levels. -/
structure SurfaceParams (ρ : Type) where
  addr : UInt32
  /-- `end`. -/
  stop : UInt32
  size : UInt32
  width : UInt32
  stride : UInt32
  type : SurfaceType
  /-- The other fields that `operator==` compares. -/
  rest : ρ
  /-- `UpdateParams` computes the end so, and `AccelerateFill` the size. -/
  stop_eq : stop = addr + size
deriving DecidableEq

/-- `operator==`. -/
def SurfaceParams.equals {ρ : Type} [DecidableEq ρ] (params other : SurfaceParams ρ) : Bool :=
  params.addr = other.addr ∧ params.stop = other.stop ∧ params.width = other.width ∧
    params.stride = other.stride ∧ params.rest = other.rest

def surfaceInterval (lower upper : UInt32) : Block := ⟨lower.toNat, upper.toNat⟩

def intersection (i j : Block) : Block := ⟨max i.lower j.lower, min i.upper j.upper⟩

/-- `SurfaceBase`. -/
structure Surface (ρ : Type) extends SurfaceParams ρ where
  /-- `SurfaceFlagBits::Registered`. -/
  registered : Bool := false
  /-- `invalid_regions`. -/
  invalidRegions : IntervalSet := .empty

namespace Surface

variable {ρ : Type} (s : Surface ρ)

def getInterval : Block := surfaceInterval s.addr s.stop

def overlaps (addr size : UInt32) : Bool := s.addr < addr + size && addr < s.stop

def isRegionValid (interval : Block) : Bool := !s.invalidRegions.intersects interval

def markValid (interval : Block) : Surface ρ :=
  { s with invalidRegions := s.invalidRegions.sub interval }

def markInvalid (interval : Block) : Surface ρ :=
  { s with invalidRegions := s.invalidRegions.add interval }

/-- The address and the size, if the surface is registered. -/
def registeredRegion : Option (UInt32 × UInt32) := if s.registered then some (s.addr, s.size) else none

/-- `IsFullyInvalid`: whether the first invalid region from the interval on is the interval. -/
def isFullyInvalid : Option Bool :=
  let interval := s.getInterval
  (s.invalidRegions.blocks.find? fun b => interval.lower < b.upper).map (· = interval)

end Surface

/-- A call of `MemorySystem::RasterizerMarkRegionCached`. -/
structure Mark where
  start : UInt32
  size : UInt32
  cached : Bool
deriving DecidableEq

structure RasterizerCache (ι ρ : Type) where
  /-- `slot_surfaces`. -/
  slots : ι → Option (Surface ρ) := fun _ => none
  pageTable : Nat → Option (List ι) := fun _ => none
  cachedPages : IntervalMap Int := .empty
  dirtyRegions : IntervalMap ι := .empty
  sentenced : List (ι × UInt64) := []
  frameTick : UInt64 := 0
  /-- The calls of `RasterizerMarkRegionCached` so far. -/
  marks : List Mark := []

/-- The pages that `ForEachPage` visits, of 18 bits. -/
def pagesOf (addr size : UInt32) : List Nat :=
  let first := addr.toNat >>> 18
  let last := ((addr.toNat + size.toNat + (2 ^ 64 - 1)) % 2 ^ 64) >>> 18
  List.range' first (last + 1 - first)

theorem nodup_pagesOf (addr size : UInt32) : (pagesOf addr size).Nodup := List.nodup_range'

/-- The pages of `cached_pages`, of 12 bits, from the first one to the one behind the last. -/
def pagesInterval (addr size : UInt32) : Block :=
  let numPages := ((addr + size - 1) >>> 12) - (addr >>> 12) + 1
  let pageStart := addr >>> 12
  ⟨pageStart.toNat, (pageStart + numPages).toNat⟩

/-- A step of the walk of `UpdatePagesCachedCount` over the counts of an interval of pages. -/
def markSegment (delta : Int) (pages : Block) (marks : List Mark) (segment : MapSegment Int) :
    Option (List Mark) :=
  let interval := intersection ⟨segment.lower, segment.upper⟩ pages
  let count := segment.value
  let intervalStartAddr : UInt32 := UInt32.ofNat interval.lower <<< 12
  let intervalEndAddr : UInt32 := UInt32.ofNat interval.upper <<< 12
  let intervalSize := intervalEndAddr - intervalStartAddr
  if 0 < delta ∧ count = delta then some (marks ++ [⟨intervalStartAddr, intervalSize, true⟩])
  else if delta < 0 ∧ count = -delta then some (marks ++ [⟨intervalStartAddr, intervalSize, false⟩])
  else if 0 ≤ count then some marks
  else none

namespace RasterizerCache

section Model

variable {ι ρ : Type} [DecidableEq ι] (c : RasterizerCache ι ρ)

def setSlot (id : ι) (surface : Option (Surface ρ)) : RasterizerCache ι ρ :=
  { c with slots := Function.update c.slots id surface }

def updatePagesCachedCount (addr size : UInt32) (delta : Int) : Option (RasterizerCache ι ρ) := do
  let pages := pagesInterval addr size
  -- A count that reaches zero is erased, so it is walked over before it is subtracted from.
  let counted := if 0 < delta then c.cachedPages.add pages.lower pages.upper delta else c.cachedPages
  let marks ← (counted.overlapping pages.lower pages.upper).foldlM (markSegment delta pages) c.marks
  let cachedPages := if delta < 0 then counted.add pages.lower pages.upper delta else counted
  return { c with cachedPages := cachedPages, marks := marks }

/-- `page_table[page].push_back(surface_id)`. -/
def pushPage (id : ι) (pageTable : Nat → Option (List ι)) (page : Nat) : Nat → Option (List ι) :=
  Function.update pageTable page (some ((pageTable page).getD [] ++ [id]))

/-- Take a surface out of the list of a page, where it has to be. -/
def erasePage (id : ι) (pageTable : Nat → Option (List ι)) (page : Nat) :
    Option (Nat → Option (List ι)) := do
  let surfaces ← pageTable page
  if id ∈ surfaces then some (Function.update pageTable page (some (surfaces.erase id))) else none

def registerSurface (id : ι) : Option (RasterizerCache ι ρ) := do
  let surface ← c.slots id
  if surface.registered then none
  let c := c.setSlot id (some { surface with registered := true })
  let c ← c.updatePagesCachedCount surface.addr surface.size 1
  return { c with pageTable := (pagesOf surface.addr surface.size).foldl (pushPage id) c.pageTable }

def unregisterSurface (id : ι) : Option (RasterizerCache ι ρ) := do
  let surface ← c.slots id
  if !surface.registered then none
  let c := c.setSlot id (some { surface with registered := false })
  let c ← c.updatePagesCachedCount surface.addr surface.size (-1)
  let pageTable ← (pagesOf surface.addr surface.size).foldlM (erasePage id) c.pageTable
  let c := { c with pageTable := pageTable }
  if surface.type ≠ .fill then return { c with sentenced := c.sentenced ++ [(id, c.frameTick)] }
  return c.setSlot id none

/-- `slot_surfaces.insert`, where the free slot is `fresh`. -/
def insertSurface (params : SurfaceParams ρ) (fresh : ι) : Option (RasterizerCache ι ρ) :=
  if (c.slots fresh).isSome then none else some (c.setSlot fresh (some { toSurfaceParams := params }))

/-- The slot of `CreateSurface`: the first that is sentenced with these parameters, or a free one. -/
def slotFor [DecidableEq ρ] (params : SurfaceParams ρ) (fresh : ι) : Option (ι × RasterizerCache ι ρ) :=
  match c.sentenced.find? fun e => (c.slots e.1).any (·.equals params) with
  | none => (c.insertSurface params fresh).map (fresh, ·)
  | some e => some (e.1, { c with sentenced := c.sentenced.erase e })

def createSurface [DecidableEq ρ] (params : SurfaceParams ρ) (fresh : ι) :
    Option (ι × RasterizerCache ι ρ) := do
  if ¬ ∀ e ∈ c.sentenced, (c.slots e.1).isSome then none
  let (id, c) ← c.slotFor params fresh
  let surface ← c.slots id
  return (id, c.setSlot id (some (surface.markInvalid surface.getInterval)))

/-- A step of the walk of `FlushRegion` over the dirty regions: what is flushed of one. -/
def flushSegment (size : UInt32) (interval : Block) (owner : Option ι) (flushed : IntervalSet)
    (segment : MapSegment ι) : Option IntervalSet := do
  if owner.any (· ≠ segment.value) then return flushed
  let region : Block := ⟨segment.lower, segment.upper⟩
  let interval := if size ≤ 8 then region else intersection region interval
  let surface ← c.slots segment.value
  if surface.isRegionValid interval then return flushed.add interval else none

def flushRegion (addr size : UInt32) (owner : Option ι) : Option (RasterizerCache ι ρ) := do
  if size = 0 then return c
  let interval := surfaceInterval addr (addr + size)
  let flushed ← (c.dirtyRegions.overlapping interval.lower interval.upper).foldlM
    (c.flushSegment size interval owner) .empty
  return { c with dirtyRegions := flushed.blocks.foldl (fun d b => d.erase b.lower b.upper) c.dirtyRegions }

/-- The surfaces that `ForEachSurfaceInRegion` visits. -/
def surfacesInRegion (addr size : UInt32) : Option (List ι) :=
  let listed := ((pagesOf addr size).flatMap fun page => (c.pageTable page).getD []).eraseDups
  if ∀ id ∈ listed, (c.slots id).isSome then
    some (listed.filter fun id => (c.slots id).any (·.overlaps addr size))
  else none

/-- What `InvalidateRegion` does with a surface in the region, and with those to remove. -/
def invalidateSurface (size : UInt32) (interval : Block) (owner : Option ι)
    (state : RasterizerCache ι ρ × List ι) (id : ι) : Option (RasterizerCache ι ρ × List ι) := do
  let (c, removed) := state
  if owner = some id then return (c, removed)
  let surface ← c.slots id
  -- Writes of the CPU remove the surface, to mark the pages as uncached.
  if owner = none ∧ size ≤ 8 then
    let c ← c.flushRegion surface.addr surface.size (some id)
    return (c, removed ++ [id])
  let surface := surface.markInvalid (intersection surface.getInterval interval)
  let fully ← surface.isFullyInvalid
  return (c.setSlot id (some surface), if fully then removed ++ [id] else removed)

/-- What `InvalidateRegion` does with the owner of the region. -/
def validateOwner (addr size : UInt32) (id : ι) : Option (RasterizerCache ι ρ) := do
  let surface ← c.slots id
  if surface.type = .texture then none
  else if ¬ (surface.addr ≤ addr ∧ addr + size ≤ surface.stop) then none
  else if surface.width ≠ surface.stride then none
  else return c.setSlot id (some (surface.markValid (surfaceInterval addr (addr + size))))

def invalidateRegion (addr size : UInt32) (owner : Option ι) : Option (RasterizerCache ι ρ) := do
  if size = 0 then return c
  let interval := surfaceInterval addr (addr + size)
  let c ← match owner with
    | none => some c
    | some id => c.validateOwner addr size id
  let visited ← c.surfacesInRegion addr size
  let (c, removed) ← visited.foldlM (invalidateSurface size interval owner) (c, [])
  let dirtyRegions := match owner with
    | none => c.dirtyRegions.erase interval.lower interval.upper
    | some id => c.dirtyRegions.set interval.lower interval.upper id
  removed.foldlM unregisterSurface { c with dirtyRegions := dirtyRegions }

/-- `notify_validated` of `ValidateSurface`. -/
def notifyValidated (id : ι) (interval : Block) : Option (RasterizerCache ι ρ) := do
  let surface ← c.slots id
  return c.setSlot id (some (surface.markValid interval))

/-- The upload of `UploadCustomSurface`, where the old surface goes to the free slot `fresh`. -/
def uploadCustom (id fresh : ι) : Option (RasterizerCache ι ρ) := do
  let surface ← c.slots id
  if (c.slots fresh).isSome then none
  let c := c.setSlot fresh (some { surface with registered := false })
  return { c with sentenced := c.sentenced ++ [(fresh, c.frameTick)] }

/-- `RunGarbageCollector`, with the threshold of the runtime. -/
def runGarbageCollector (removeThreshold : UInt64) : RasterizerCache ι ρ :=
  let frameTick := c.frameTick + 1
  let expired := c.sentenced.filter fun e => ¬ frameTick - e.2 ≤ removeThreshold
  { c with
    frameTick := frameTick
    slots := expired.foldl (fun slots e => Function.update slots e.1 none) c.slots
    sentenced := c.sentenced.filter fun e => frameTick - e.2 ≤ removeThreshold }

end Model

section Pages

variable {ι ρ : Type} {c c' : RasterizerCache ι ρ} {id : ι} {s : Surface ρ} {addr size : UInt32}
  {delta : Int} {pageTable pageTable' : Nat → Option (List ι)} {pages : List Nat}
  {page : Nat}

theorem foldl_pushPage (hnodup : pages.Nodup) :
    (pages.foldl (pushPage id) pageTable) page =
      if page ∈ pages then some ((pageTable page).getD [] ++ [id]) else pageTable page := by
  induction pages generalizing pageTable with
  | nil => rfl
  | cons q rest ih =>
      obtain ⟨hq, hrest⟩ := List.nodup_cons.mp hnodup
      rw [List.foldl_cons, ih hrest]
      rcases eq_or_ne page q with rfl | hne
      · rw [if_neg hq, if_pos (List.mem_cons_self ..), pushPage, update_self]
      · rw [pushPage, update_of_ne hne]
        simp only [List.mem_cons, hne, false_or]

theorem updatePagesCachedCount_cases (h : c.updatePagesCachedCount addr size delta = some c') :
    ∃ cachedPages marks, c' = { c with cachedPages := cachedPages, marks := marks } := by
  simp only [updatePagesCachedCount, Option.bind_eq_bind, Option.bind_eq_some_iff] at h
  obtain ⟨marks, -, hc'⟩ := h
  exact ⟨_, marks, (Option.some.inj hc').symm⟩

variable [DecidableEq ι]

theorem foldlM_erasePage (hnodup : pages.Nodup)
    (hlisted : ∀ page ∈ pages, id ∈ (pageTable page).getD []) :
    ∃ pageTable', pages.foldlM (erasePage id) pageTable = some pageTable' ∧
      ∀ page, pageTable' page =
        if page ∈ pages then some (((pageTable page).getD []).erase id) else pageTable page := by
  induction pages generalizing pageTable with
  | nil => exact ⟨pageTable, rfl, fun _ => rfl⟩
  | cons q rest ih =>
      obtain ⟨hq, hrest⟩ := List.nodup_cons.mp hnodup
      have hmem := hlisted q (List.mem_cons_self ..)
      obtain ⟨surfaces, hsurfaces⟩ : ∃ surfaces, pageTable q = some surfaces := by
        cases hp : pageTable q with
        | none => simp [hp] at hmem
        | some surfaces => exact ⟨surfaces, rfl⟩
      rw [hsurfaces, Option.getD_some] at hmem
      have herase : erasePage id pageTable q =
          some (Function.update pageTable q (some (surfaces.erase id))) := by
        simp only [erasePage, hsurfaces, Option.bind_eq_bind, Option.bind_some, if_pos hmem]
      obtain ⟨pageTable', hfold, hvalue⟩ := @ih (Function.update pageTable q (some (surfaces.erase id))) hrest
        fun page hpage => by
          have hne : page ≠ q := fun heq => hq (heq ▸ hpage)
          rw [update_of_ne hne]
          exact hlisted page (List.mem_cons_of_mem _ hpage)
      refine ⟨pageTable', ?_, fun page => ?_⟩
      · rw [List.foldlM_cons, herase]
        exact hfold
      · rw [hvalue]
        rcases eq_or_ne page q with rfl | hne
        · rw [if_neg hq, update_self, if_pos (List.mem_cons_self ..), hsurfaces, Option.getD_some]
        · rw [update_of_ne hne]
          simp only [List.mem_cons, hne, false_or]

theorem registerSurface_cases (h : c.registerSurface id = some c') :
    ∃ s cachedPages marks, c.slots id = some s ∧ s.registered = false ∧
      c' = { c with
        slots := Function.update c.slots id (some { s with registered := true })
        cachedPages := cachedPages
        marks := marks
        pageTable := (pagesOf s.addr s.size).foldl (pushPage id) c.pageTable } := by
  simp only [registerSurface, Option.bind_eq_bind, Option.bind_eq_some_iff] at h
  obtain ⟨s, hs, h⟩ := h
  split at h
  · exact nomatch h
  · next hregistered =>
    obtain ⟨c₁, hcount, hc'⟩ := Option.bind_eq_some_iff.mp h
    obtain ⟨cachedPages, marks, rfl⟩ := updatePagesCachedCount_cases hcount
    exact ⟨s, cachedPages, marks, hs, Bool.not_eq_true _ ▸ hregistered, (Option.some.inj hc').symm⟩

theorem unregisterSurface_cases (h : c.unregisterSurface id = some c') :
    ∃ s cachedPages marks pageTable, c.slots id = some s ∧ s.registered = true ∧
      (pagesOf s.addr s.size).foldlM (erasePage id) c.pageTable = some pageTable ∧
      c' = { c with
        slots := Function.update c.slots id
          (if s.type = .fill then none else some { s with registered := false })
        cachedPages := cachedPages
        marks := marks
        pageTable := pageTable
        sentenced := if s.type = .fill then c.sentenced else c.sentenced ++ [(id, c.frameTick)] } := by
  simp only [unregisterSurface, Option.bind_eq_bind, Option.bind_eq_some_iff] at h
  obtain ⟨s, hs, h⟩ := h
  split at h
  · exact nomatch h
  · next hregistered =>
    obtain ⟨c₁, hcount, h⟩ := Option.bind_eq_some_iff.mp h
    obtain ⟨pageTable, hpages, h⟩ := Option.bind_eq_some_iff.mp h
    obtain ⟨cachedPages, marks, rfl⟩ := updatePagesCachedCount_cases hcount
    refine ⟨s, cachedPages, marks, pageTable, hs, by simpa using hregistered, hpages, ?_⟩
    split at h
    · next hfill =>
      rw [if_neg hfill, if_neg hfill]
      exact (Option.some.inj h).symm
    · next hfill =>
      rw [if_pos (not_not.mp hfill), if_pos (not_not.mp hfill), ← Option.some.inj h]
      simp [setSlot]

theorem unregisterSurface_of_calls {c₁ : RasterizerCache ι ρ} (hs : c.slots id = some s)
    (hregistered : s.registered = true)
    (hcount : (c.setSlot id (some { s with registered := false })).updatePagesCachedCount s.addr s.size (-1) =
      some c₁)
    (hpages : (pagesOf s.addr s.size).foldlM (erasePage id) c₁.pageTable = some pageTable) :
    ∃ c', c.unregisterSurface id = some c' ∧ c'.cachedPages = c₁.cachedPages ∧ c'.marks = c₁.marks := by
  rw [unregisterSurface, hs, Option.bind_eq_bind, Option.bind_some, hregistered, Bool.not_true,
    if_neg (by decide)]
  dsimp only
  rw [Option.bind_eq_bind, hcount, Option.bind_some, Option.bind_eq_bind, hpages, Option.bind_some]
  split
  · exact ⟨_, rfl, rfl, rfl⟩
  · exact ⟨_, rfl, rfl, rfl⟩

/-- The regions of the registered surfaces. -/
def registration (c : RasterizerCache ι ρ) (id : ι) : Option (UInt32 × UInt32) :=
  (c.slots id).bind Surface.registeredRegion

omit [DecidableEq ι] in
theorem registration_of_registered (hs : c.slots id = some s) (hregistered : s.registered = true) :
    c.registration id = some (s.addr, s.size) := by
  rw [registration, hs, Option.bind_some, Surface.registeredRegion, if_pos hregistered]

omit [DecidableEq ι] in
theorem registration_of_unregistered (hs : c.slots id = some s) (hregistered : s.registered = false) :
    c.registration id = none := by
  rw [registration, hs, Option.bind_some, Surface.registeredRegion, if_neg (by simp [hregistered])]

omit [DecidableEq ι] in
theorem registration_eq_some {region : UInt32 × UInt32} : c.registration id = some region ↔
    ∃ s, c.slots id = some s ∧ s.registered = true ∧ (s.addr, s.size) = region := by
  rw [registration, Option.bind_eq_some_iff]
  refine exists_congr fun s => and_congr_right fun _ => ?_
  rw [Surface.registeredRegion]
  split <;> simp_all

theorem registration_update {surface : Option (Surface ρ)}
    (h : c'.slots = Function.update c.slots id surface) :
    c'.registration = Function.update c.registration id (surface.bind Surface.registeredRegion) := by
  refine funext fun other => ?_
  rcases eq_or_ne other id with rfl | hne
  · rw [registration, h, update_self, update_self]
  · rw [registration, h, update_of_ne hne, update_of_ne hne]
    rfl

theorem registration_register (h : c.registerSurface id = some c') :
    ∃ s, c.slots id = some s ∧ s.registered = false ∧
      c'.registration = Function.update c.registration id (some (s.addr, s.size)) := by
  obtain ⟨s, cachedPages, marks, hs, hregistered, rfl⟩ := registerSurface_cases h
  exact ⟨s, hs, hregistered, (registration_update rfl).trans rfl⟩

theorem registration_unregister (h : c.unregisterSurface id = some c') :
    ∃ s, c.slots id = some s ∧ s.registered = true ∧
      c'.registration = Function.update c.registration id none := by
  obtain ⟨s, cachedPages, marks, pageTable, hs, hregistered, -, rfl⟩ := unregisterSurface_cases h
  refine ⟨s, hs, hregistered, (registration_update rfl).trans (congrArg _ ?_)⟩
  split <;> rfl

/-- The list of a page holds the registered surfaces there, each once. -/
def Listed (c : RasterizerCache ι ρ) : Prop :=
  ∀ page, ((c.pageTable page).getD []).Nodup ∧ ∀ id, id ∈ (c.pageTable page).getD [] ↔
    ∃ region, c.registration id = some region ∧ page ∈ pagesOf region.1 region.2

omit [DecidableEq ι] in
theorem Listed.congr (h : c.Listed) (hpages : c'.pageTable = c.pageTable)
    (hregistration : c'.registration = c.registration) : c'.Listed := by
  rw [Listed, hpages, hregistration]
  exact h

theorem Listed.register (h : c.Listed) (hregister : c.registerSurface id = some c') : c'.Listed := by
  obtain ⟨s, hs, hnone, hregistration⟩ := registration_register hregister
  obtain ⟨s', cachedPages, marks, hs', -, rfl⟩ := registerSurface_cases hregister
  cases Option.some.inj (hs.symm.trans hs')
  intro page
  obtain ⟨hnodup, hmem⟩ := h page
  have hnew : id ∉ (c.pageTable page).getD [] := fun hin => by
    obtain ⟨region, hregion, -⟩ := (hmem id).mp hin
    exact nomatch (registration_of_unregistered hs hnone).symm.trans hregion
  rw [hregistration]
  simp only [foldl_pushPage (nodup_pagesOf s.addr s.size)]
  by_cases hpage : page ∈ pagesOf s.addr s.size
  · simp only [if_pos hpage, Option.getD_some]
    refine ⟨List.nodup_append.mpr ⟨hnodup, List.nodup_singleton id, ?_⟩, fun other => ?_⟩
    · rintro x hx y hy rfl
      exact hnew (List.mem_singleton.mp hy ▸ hx)
    · rw [List.mem_append, List.mem_singleton]
      rcases eq_or_ne other id with rfl | hne
      · rw [update_self]
        exact iff_of_true (.inr rfl) ⟨_, rfl, hpage⟩
      · rw [update_of_ne hne, hmem]
        exact or_iff_left hne
  · simp only [if_neg hpage]
    refine ⟨hnodup, fun other => ?_⟩
    rcases eq_or_ne other id with rfl | hne
    · rw [update_self]
      refine iff_of_false hnew ?_
      rintro ⟨region, hregion, hin⟩
      cases Option.some.inj hregion
      exact hpage hin
    · rw [update_of_ne hne, hmem]

theorem Listed.unregister (h : c.Listed) (hunregister : c.unregisterSurface id = some c') :
    c'.Listed := by
  obtain ⟨s, hs, hregistered, hregistration⟩ := registration_unregister hunregister
  obtain ⟨s', cachedPages, marks, pageTable, hs', -, hpages, rfl⟩ := unregisterSurface_cases hunregister
  cases Option.some.inj (hs.symm.trans hs')
  have hlisted : ∀ page ∈ pagesOf s.addr s.size, id ∈ (c.pageTable page).getD [] := fun page hpage =>
    ((h page).2 id).mpr ⟨_, registration_of_registered hs hregistered, hpage⟩
  obtain ⟨pageTable', hfold, hvalue⟩ := foldlM_erasePage (nodup_pagesOf s.addr s.size) hlisted
  cases Option.some.inj (hfold.symm.trans hpages)
  intro page
  obtain ⟨hnodup, hmem⟩ := h page
  rw [hregistration]
  simp only [hvalue]
  by_cases hpage : page ∈ pagesOf s.addr s.size
  · simp only [if_pos hpage, Option.getD_some]
    refine ⟨hnodup.erase id, fun other => ?_⟩
    rw [hnodup.mem_erase_iff]
    rcases eq_or_ne other id with rfl | hne
    · rw [update_self]
      exact iff_of_false (fun hin => hin.1 rfl) nofun
    · rw [update_of_ne hne, hmem]
      exact and_iff_right hne
  · simp only [if_neg hpage]
    refine ⟨hnodup, fun other => ?_⟩
    rcases eq_or_ne other id with rfl | hne
    · rw [update_self, hmem]
      refine iff_of_false ?_ nofun
      rintro ⟨region, hregion, hin⟩
      cases Option.some.inj ((registration_of_registered hs hregistered).symm.trans hregion)
      exact hpage hin
    · rw [update_of_ne hne, hmem]

end Pages

end RasterizerCache

end Cytrus.VideoCore
