import Mathlib
import Cytrus.Ldr.CroLink

/-!
# What linking leaves alone

Relocations write words of segments and the flags of batches, and only the
flags of imported batches become set. The headers, the tables and the links are
the same after a module is linked or unlinked.
-/

namespace Cytrus.Ldr

open Support
open Exec (keeps_get keeps_pure keeps_forEach keeps_when keeps_read_bind keeps_require_bind
  keeps_modify bind_eq_value keeps_throw get_bind)

/-! ### Calls that relocate -/

section Relocating

variable {I : LoaderState → Prop} {s : LoaderState}

theorem applyRelocation_keeps (hI : ∀ t a v, I t → I (t.setWord a v)) (hs : I s)
    (target : VAddr) (type : UInt8) (addend symbol future : UInt32) :
    (applyRelocation target type addend symbol future).Keeps I s := by
  unfold applyRelocation
  cases relocatedValue type addend symbol future with
  | error e => exact keeps_throw e hs
  | ok v =>
      cases v with
      | none => exact keeps_pure _ hs
      | some v => exact keeps_modify (hI s target v hs)

theorem clearRelocation_keeps (hI : ∀ t a v, I t → I (t.setWord a v)) (hs : I s)
    (target : VAddr) (type : UInt8) : (clearRelocation target type).Keeps I s := by
  unfold clearRelocation
  cases relocatedValue type 0 0 0 with
  | error e => exact keeps_throw e hs
  | ok v =>
      cases v with
      | none => exact keeps_pure _ hs
      | some v => exact keeps_modify (hI s target 0 hs)

theorem relocateEntries_keeps (hI : ∀ t a v, I t → I (t.setWord a v)) (self : VAddr)
    (symbol : UInt32) (l : List RelocationEntry) (hs : I s) :
    (relocateEntries self symbol l).Keeps I s := by
  induction l generalizing s with
  | nil => exact Exec.keeps_abort _
  | cons r rest ih =>
      rw [relocateEntries]
      apply keeps_get
      apply keeps_require_bind hs
      intro _
      apply (applyRelocation_keeps hI hs _ _ _ _ _).bind
      intro _ t ht
      split
      · exact keeps_pure _ ht
      · exact ih ht

theorem applyRelocationBatch_keeps (hI : ∀ t a v, I t → I (t.setWord a v))
    {self batch symbol : VAddr} {reset : Bool}
    (hflag : ∀ t i, I t → batchAt (s.header self) (s.tables self) batch = some i →
      I (t.setResolved self i (!reset))) (hs : I s) :
    (applyRelocationBatch self batch symbol reset).Keeps I s := by
  unfold applyRelocationBatch
  apply keeps_require_bind hs
  intro _
  apply keeps_get
  apply keeps_read_bind
  intro i hi
  apply (relocateEntries_keeps hI self symbol _ hs).bind
  intro _ t ht
  exact keeps_modify (hflag t i ht hi)

theorem forEachAutoLinkCRO_keeps {f : VAddr → Loading Bool}
    (hf : ∀ current t, I t → (f current).Keeps I t) (n : Nat) (current : VAddr) (hs : I s) :
    (forEachAutoLinkCRO f n current).Keeps I s := by
  induction n generalizing s current with
  | zero => exact Exec.keeps_abort _
  | succ n ih =>
      rw [forEachAutoLinkCRO]
      split
      · exact keeps_pure _ hs
      · apply (hf current s hs).bind
        intro next t ht
        cases next with
        | false => exact keeps_pure _ ht
        | true => exact keeps_get (ih _ ht)

theorem importSymbol_keeps (text : Strings) {self batch : VAddr} {name : Name}
    (hbatch : ∀ t symbol, I t → (applyRelocationBatch self batch symbol false).Keeps I t)
    (crs : VAddr) (hs : I s) : (importSymbol text self crs name batch).Keeps I s := by
  apply forEachAutoLinkCRO_keeps _ _ _ hs
  intro source t ht
  apply Exec.keeps_lookup_bind
  intro symbol _
  split
  · exact (hbatch t symbol ht).bind fun _ u hu => keeps_pure _ hu
  · exact keeps_pure _ ht

theorem forModuleSymbols_keeps {target : VAddr} {entry : ImportModuleEntry}
    {act : ModuleSymbol × VAddr → Loading Unit}
    (hact : ∀ im t, some im ∈ entry.symbols (s.header target) (s.tables target) → I t →
      (act im).Keeps I t) (hs : I s) : (forModuleSymbols target entry act).Keeps I s := by
  apply keeps_get
  apply keeps_forEach hs
  intro found hfound t ht
  apply keeps_read_bind
  intro im him
  exact hact im t (him ▸ hfound) ht

end Relocating

/-! ### The batches of imports -/

/-- The batches that the import tables name. -/
def Tables.importBatches (t : Tables) : List VAddr :=
  t.importNamed.map ImportNamedSymbolEntry.relocationBatchOffset ++
    t.importIndexed.map ImportIndexedSymbolEntry.relocationBatchOffset ++
    t.importAnonymous.map AnonymousSymbolEntry.relocationBatchOffset

/-- An import table names a batch. -/
def IsImportBatch (h : Header) (t : Tables) (i : Nat) : Prop :=
  ∃ batch ∈ t.importBatches, batchAt h t batch = some i

theorem Tables.named_mem_importBatches {t : Tables} {e : ImportNamedSymbolEntry}
    (he : e ∈ t.importNamed) : e.relocationBatchOffset ∈ t.importBatches := by
  simp only [Tables.importBatches, List.mem_append]
  exact .inl (.inl (List.mem_map_of_mem he))

theorem ImportModuleEntry.symbols_mem_importBatches {e : ImportModuleEntry} {h : Header}
    {t : Tables} {im : ModuleSymbol × VAddr} (him : some im ∈ e.symbols h t) :
    im.2 ∈ t.importBatches := by
  simp only [ImportModuleEntry.symbols, List.mem_append, List.mem_map, List.mem_range] at him
  simp only [Tables.importBatches, List.mem_append]
  rcases him with ⟨j, -, hj⟩ | ⟨j, -, hj⟩
  · obtain ⟨entry, hentry, rfl⟩ := Option.map_eq_some_iff.mp hj
    obtain ⟨i, -, hi⟩ := Option.bind_eq_some_iff.mp hentry
    exact .inl (.inr (List.mem_map_of_mem (List.mem_of_getElem? hi)))
  · obtain ⟨entry, hentry, rfl⟩ := Option.map_eq_some_iff.mp hj
    obtain ⟨i, -, hi⟩ := Option.bind_eq_some_iff.mp hentry
    exact .inr (List.mem_map_of_mem (List.mem_of_getElem? hi))

/-! ### The frame -/

/-- Only words have changed, and flags of which some are set now. -/
structure Frame (s₀ : LoaderState) (P : VAddr → Nat → Prop) (t : LoaderState) : Prop where
  header : t.header = s₀.header
  tables : t.tables = s₀.tables
  links : t.links = s₀.links
  staticResolved : t.staticResolved = s₀.staticResolved
  resolved : ∀ m i, t.resolved m i = true → s₀.resolved m i = true ∨ P m i

/-- The flags of imported batches may be set. -/
def LoaderState.Imported (s : LoaderState) (m : VAddr) (i : Nat) : Prop :=
  IsImportBatch (s.header m) (s.tables m) i

namespace Frame

variable {s₀ s t : LoaderState} {P Q : VAddr → Nat → Prop}

theorem refl : Frame s₀ P s₀ := ⟨rfl, rfl, rfl, rfl, fun _ _ h => .inl h⟩

theorem trans (h : Frame s₀ P s) (h' : Frame s P t) : Frame s₀ P t where
  header := h'.header.trans h.header
  tables := h'.tables.trans h.tables
  links := h'.links.trans h.links
  staticResolved := h'.staticResolved.trans h.staticResolved
  resolved m i ht := (h'.resolved m i ht).elim (h.resolved m i) .inr

theorem setWord (a v : UInt32) (h : Frame s₀ P t) : Frame s₀ P (t.setWord a v) :=
  ⟨h.header, h.tables, h.links, h.staticResolved, h.resolved⟩

theorem setResolved (m : VAddr) (i : Nat) (b : Bool) (hP : b = true → P m i)
    (h : Frame s₀ P t) : Frame s₀ P (t.setResolved m i b) where
  header := h.header
  tables := h.tables
  links := h.links
  staticResolved := h.staticResolved
  resolved k j hk := by
    simp only [LoaderState.setResolved, Function.update_apply] at hk
    split at hk
    · next hkm =>
        subst hkm
        simp only [Function.update_apply] at hk
        split at hk
        · next hji => exact .inr (hji ▸ hP hk)
        · exact h.resolved k j hk
    · exact h.resolved k j hk

theorem applyRelocationBatch {self batch symbol : VAddr} {reset : Bool}
    (hP : reset = true ∨ ∀ i, batchAt (s₀.header self) (s₀.tables self) batch = some i → P self i)
    (h : Frame s₀ P t) : (applyRelocationBatch self batch symbol reset).Keeps (Frame s₀ P) t := by
  apply applyRelocationBatch_keeps (fun _ a v hu => hu.setWord a v) _ h
  intro u i hu hi
  apply hu.setResolved
  intro hset
  rw [h.header, h.tables] at hi
  exact hP.elim (fun hreset => by simp [hreset] at hset) fun hall => hall i hi

theorem applyImport {self batch symbol : VAddr} (hP : ∀ i, s₀.Imported self i → P self i)
    (hbatch : batch ∈ (s₀.tables self).importBatches) (h : Frame s₀ P t) :
    (Ldr.applyRelocationBatch self batch symbol false).Keeps (Frame s₀ P) t :=
  h.applyRelocationBatch (.inr fun i hi => hP i ⟨batch, hbatch, hi⟩)

theorem importSymbol (text : Strings) {self batch crs : VAddr} {name : Name}
    (hP : ∀ i, s₀.Imported self i → P self i)
    (hbatch : batch ∈ (s₀.tables self).importBatches) (h : Frame s₀ P t) :
    (importSymbol text self crs name batch).Keeps (Frame s₀ P) t :=
  importSymbol_keeps text (fun _ _ hu => hu.applyImport hP hbatch) crs h

theorem applyImportNamedSymbol (text : Strings) {self crs : VAddr}
    (hP : ∀ i, s₀.Imported self i → P self i) (h : Frame s₀ P t) :
    (applyImportNamedSymbol text self crs).Keeps (Frame s₀ P) t := by
  apply keeps_get
  apply keeps_forEach h
  intro entry hentry u hu
  apply keeps_read_bind
  intro resolved _
  apply keeps_when hu
  intro _
  rw [h.tables] at hentry
  exact hu.importSymbol text hP (Tables.named_mem_importBatches hentry)

theorem applyModuleSymbols {source target : VAddr} {entry : ImportModuleEntry}
    (hP : ∀ i, s₀.Imported target i → P target i) (h : Frame s₀ P t) :
    (applyModuleSymbols source target entry).Keeps (Frame s₀ P) t := by
  apply forModuleSymbols_keeps _ h
  intro im u him hu
  apply keeps_read_bind
  intro symbol _
  rw [h.header, h.tables] at him
  exact hu.applyImport hP (ImportModuleEntry.symbols_mem_importBatches him)

theorem applyModuleImport (text : Strings) {self crs : VAddr}
    (hP : ∀ i, s₀.Imported self i → P self i) (h : Frame s₀ P t) :
    (applyModuleImport text self crs).Keeps (Frame s₀ P) t := by
  apply keeps_get
  apply keeps_forEach h
  intro entry _ u hu
  apply forEachAutoLinkCRO_keeps _ _ _ hu
  intro source v hv
  apply keeps_get
  split
  · exact (hv.applyModuleSymbols hP).bind fun _ w hw => keeps_pure _ hw
  · exact keeps_pure _ hv

theorem forExportedNames (text : Strings) {self target : VAddr} {resolved : Bool}
    {act : VAddr → VAddr → Loading Unit}
    (hact : ∀ e ∈ (s₀.tables target).importNamed, ∀ symbol u, Frame s₀ P u →
      (act e.relocationBatchOffset symbol).Keeps (Frame s₀ P) u) (h : Frame s₀ P t) :
    (forExportedNames text self target resolved act).Keeps (Frame s₀ P) t := by
  apply keeps_get
  apply keeps_forEach h
  intro entry hentry u hu
  apply keeps_read_bind
  intro isBatchResolved _
  apply keeps_when hu
  intro _
  apply Exec.keeps_lookup_bind
  intro symbol _
  apply keeps_when hu
  intro _
  rw [h.tables] at hentry
  exact hact entry hentry symbol u hu

theorem forModuleImports (text : Strings) {self target : VAddr}
    {act : ImportModuleEntry → Loading Unit}
    (hact : ∀ e u, Frame s₀ P u → (act e).Keeps (Frame s₀ P) u) (h : Frame s₀ P t) :
    (forModuleImports text self target act).Keeps (Frame s₀ P) t := by
  apply keeps_get
  apply keeps_forEach h
  intro entry _ u hu
  exact keeps_when hu fun _ => hact entry u hu

theorem applyExports (text : Strings) {self crs : VAddr}
    (hP : ∀ m i, s₀.Imported m i → P m i) (h : Frame s₀ P t) :
    (forEachAutoLinkCRO (fun target => do
      applyExportNamedSymbol text self target
      applyModuleExport text self target
      pure true) roundBound crs).Keeps (Frame s₀ P) t := by
  apply forEachAutoLinkCRO_keeps _ _ _ h
  intro target u hu
  apply Exec.Keeps.bind
  · apply hu.forExportedNames text
    intro e he symbol v hv
    exact hv.applyImport (hP target) (Tables.named_mem_importBatches he)
  · intro _ v hv
    apply Exec.Keeps.bind
    · exact hv.forModuleImports text fun e w hw => hw.applyModuleSymbols (hP target)
    · intro _ w hw
      exact keeps_pure _ hw

theorem resetExports (text : Strings) {self crs : VAddr} (h : Frame s₀ P t) :
    (forEachAutoLinkCRO (fun target => do
      resetExportNamedSymbol text self target
      resetModuleExport text self target
      pure true) roundBound crs).Keeps (Frame s₀ P) t := by
  apply forEachAutoLinkCRO_keeps _ _ _ h
  intro target u hu
  apply Exec.Keeps.bind
  · apply keeps_get
    exact hu.forExportedNames text fun e _ symbol v hv => hv.applyRelocationBatch (.inl rfl)
  · intro _ v hv
    apply Exec.Keeps.bind
    · apply keeps_get
      apply hv.forModuleImports text
      intro e w hw
      exact forModuleSymbols_keeps (fun im x _ hx => hx.applyRelocationBatch (.inl rfl)) hw
    · intro _ w hw
      exact keeps_pure _ hw

theorem forExternalRelocations {act : VAddr → RelocationEntry → Loading Unit}
    (hact : ∀ target r u, Frame s₀ P u → (act target r).Keeps (Frame s₀ P) u)
    (self : VAddr) (batchBegin : Bool) (i : Nat) (l : List RelocationEntry) (h : Frame s₀ P t) :
    (forExternalRelocations self act batchBegin i l).Keeps (Frame s₀ P) t := by
  induction l generalizing t batchBegin i with
  | nil => exact keeps_pure _ h
  | cons r rest ih =>
      rw [Ldr.forExternalRelocations]
      apply keeps_get
      apply keeps_require_bind h
      intro _
      apply (hact _ r t h).bind
      intro _ u hu
      apply Exec.Keeps.bind
      · apply keeps_when hu
        intro _
        exact keeps_modify (hu.setResolved self i false (by simp))
      · intro _ v hv
        exact ih r.isBatchEnd (i + 1) hv

theorem resetExternalRelocations (self : VAddr) (h : Frame s₀ P t) :
    (resetExternalRelocations self).Keeps (Frame s₀ P) t := by
  apply keeps_get
  apply keeps_read_bind
  intro last _
  apply keeps_require_bind h
  intro _
  apply h.forExternalRelocations
  intro target r u hu
  exact applyRelocation_keeps (fun _ a v hv => hv.setWord a v) hu _ _ _ _ _

theorem clearRelocations (self : VAddr) (h : Frame s₀ P t) :
    (clearRelocations self).Keeps (Frame s₀ P) t := by
  apply Exec.Keeps.bind
  · apply keeps_get
    apply h.forExternalRelocations
    intro target r u hu
    exact clearRelocation_keeps (fun _ a v hv => hv.setWord a v) hu _ _
  · intro _ u hu
    apply keeps_get
    apply keeps_forEach hu
    intro r _ v hv
    apply keeps_get
    apply keeps_require_bind hv
    intro _
    exact clearRelocation_keeps (fun _ a w hw => hw.setWord a w) hv _ _

theorem applyInternalRelocations (self : VAddr) (old : UInt32) (h : Frame s₀ P t) :
    (applyInternalRelocations self old).Keeps (Frame s₀ P) t := by
  apply keeps_get
  apply keeps_forEach h
  intro r _ u hu
  apply keeps_get
  apply keeps_require_bind hu
  intro _
  apply keeps_read_bind
  intro segment _
  cases (u.tables self).segments[r.symbolSegment.toNat]? with
  | none =>
      dsimp only
      exact keeps_throw _ hu
  | some symbolSegment =>
      dsimp only
      exact applyRelocation_keeps (fun _ a v hv => hv.setWord a v) hu _ _ _ _ _

theorem applyExitRelocations (text : Strings) {self crs : VAddr}
    (hP : ∀ i, s₀.Imported self i → P self i) (h : Frame s₀ P t) :
    (applyExitRelocations text self crs).Keeps (Frame s₀ P) t := by
  apply keeps_get
  apply keeps_forEach h
  intro entry hentry u hu
  apply keeps_when hu
  intro _
  rw [h.tables] at hentry
  exact hu.importSymbol text hP (Tables.named_mem_importBatches hentry)

end Frame

/-! ### Calls that return a value -/

section Values

variable {text : Strings} {self crs : VAddr} {s t : LoaderState} {a : Unit}

theorem modify_modify_offset {l : List SegmentEntry} {g : SegmentEntry} (offset : UInt32)
    (hg : l[2]? = some g) :
    (l.modify 2 fun g => { g with offset := offset }).modify 2
      (fun h => { h with offset := g.offset }) = l := by
  apply List.ext_getElem?
  intro i
  simp only [List.getElem?_modify]
  by_cases hi : 2 = i
  · subst hi
    simp [hg]
  · simp [hi]

theorem setDataSegment_back {offset : VAddr} {entry : SegmentEntry}
    (hentry : (s.tables self).segments[2]? = some entry)
    (ht : t.tables = (s.setDataSegment self offset).tables) :
    (t.setDataSegment self entry.offset).tables = s.tables := by
  simp only [LoaderState.setDataSegment, LoaderState.setTables] at ht ⊢
  rw [ht]
  simp only [Function.update_self, Function.update_idem, modify_modify_offset offset hentry]
  exact Function.update_eq_self ..

theorem imported_setDataSegment {offset : VAddr} {m : VAddr} {i : Nat} :
    (s.setDataSegment self offset).Imported m i ↔ s.Imported m i := by
  by_cases hm : m = self
  · subst hm
    simp [LoaderState.Imported, LoaderState.setDataSegment, LoaderState.setTables, IsImportBatch,
      batchAt, Tables.importBatches]
  · simp [LoaderState.Imported, LoaderState.setDataSegment, LoaderState.setTables, hm]

theorem scopeExit_eq_value {exit : LoaderState → LoaderState} {x : Loading Unit}
    (h : scopeExit exit x s = .value a t) : ∃ u, x s = .value a u ∧ t = exit u := by
  unfold scopeExit at h
  cases hx : x s with
  | value b u =>
      simp only [hx, Outcome.value.injEq] at h
      exact ⟨u, rfl, h.2.symm⟩
  | error e u => simp [hx] at h
  | fault f => simp [hx] at h

theorem applyImports_frame {linkOnLoadBugFix : Bool}
    (h : applyImports text self crs linkOnLoadBugFix s = .value a t) : Frame s s.Imported t := by
  have himports : ∀ {v w : LoaderState} {b : Unit}, (do
      applyImportNamedSymbol text self crs
      applyModuleImport text self crs : Loading Unit) v = .value b w → Frame v v.Imported w := by
    intro v w b hw
    refine Exec.Keeps.value ?_ hw
    apply (Frame.refl.applyImportNamedSymbol text fun _ hi => hi).bind
    intro _ x hx
    exact hx.applyModuleImport text fun _ hi => hi
  simp only [applyImports, get_bind] at h
  split at h
  · simp only [bind_eq_value, Exec.read_eq_value, Exec.assert_eq_value,
      Exec.modify_eq_value] at h
    obtain ⟨entry, _, ⟨hentry, rfl⟩, _, _, ⟨_, rfl⟩, _, _, rfl, h⟩ := h
    obtain ⟨u, hu, rfl⟩ := scopeExit_eq_value h
    have hu := himports hu
    exact {
      header := hu.header
      tables := setDataSegment_back hentry hu.tables
      links := hu.links
      staticResolved := hu.staticResolved
      resolved := fun m i hi => (hu.resolved m i hi).imp_right imported_setDataSegment.mp }
  · exact himports h

theorem Frame.imported_iff {P : VAddr → Nat → Prop} (h : Frame s P t) {m : VAddr} {i : Nat} :
    t.Imported m i ↔ s.Imported m i := by
  rw [LoaderState.Imported, h.header, h.tables, LoaderState.Imported]

theorem link_frame {linkOnLoadBugFix : Bool}
    (h : link text self crs linkOnLoadBugFix s = .value a t) : Frame s s.Imported t := by
  simp only [link, bind_eq_value] at h
  obtain ⟨_, u, himports, hexports⟩ := h
  have hu := applyImports_frame himports
  exact (hu.applyExports text fun _ _ hi => hi).value hexports

/-- What the loop over the symbols for the static module does to the flags of a
module, which are set if the loop has anything to do. -/
structure StaticFrame (m : VAddr) (s t : LoaderState) (any : Prop) : Prop where
  header : t.header = s.header
  tables : t.tables = s.tables
  links : t.links = s.links
  resolved : ∀ k i, t.resolved k i = true → s.resolved k i = true
  kept : ∀ i, s.staticResolved m i = true → t.staticResolved m i = true
  set : any → ∃ i, t.staticResolved m i = true
  unset : ¬ any → t.staticResolved = s.staticResolved

theorem applyStaticBatch_frame {batch symbol : VAddr}
    (h : applyStaticBatch crs self batch symbol s = .value a t) : StaticFrame self s t True := by
  simp only [applyStaticBatch, bind_eq_value, Exec.require_eq_value, Exec.get_eq_value,
    Exec.read_eq_value, Exec.modify_eq_value] at h
  obtain ⟨_, _, ⟨-, rfl⟩, _, _, ⟨rfl, rfl⟩, i, _, ⟨-, rfl⟩, _, v, hentries, rfl⟩ := h
  have hv := (relocateEntries_keeps (fun _ a w hu => Frame.setWord a w hu) crs symbol _
    (Frame.refl : Frame s (fun _ _ => False) s)).value hentries
  exact {
    header := hv.header
    tables := hv.tables
    links := hv.links
    resolved := fun m j hj => (hv.resolved m j hj).elim id False.elim
    kept := fun j hj => by
      simp only [LoaderState.setStaticResolved, Function.update_self, Function.update_apply,
        hv.staticResolved]
      split
      · rfl
      · exact hj
    set := fun _ => ⟨i, by simp [LoaderState.setStaticResolved]⟩
    unset := fun h => (h trivial).elim }

theorem applyStaticAnonymousSymbolToCRS_frame
    (h : applyStaticAnonymousSymbolToCRS self crs s = .value a t) :
    StaticFrame self s t ((s.tables self).staticAnonymous ≠ []) := by
  simp only [applyStaticAnonymousSymbolToCRS, get_bind] at h
  generalize (s.tables self).staticAnonymous = l at h ⊢
  generalize s.header self = header at h
  generalize s.tables self = tables at h
  induction l generalizing s with
  | nil =>
      obtain ⟨-, rfl⟩ := Exec.pure_eq_value.mp h
      exact ⟨rfl, rfl, rfl, fun _ _ h => h, fun _ h => h, fun h => (h rfl).elim, fun _ => rfl⟩
  | cons entry rest ih =>
      simp only [Exec.forEach, bind_eq_value, Exec.require_eq_value, Exec.get_eq_value] at h
      obtain ⟨_, v, ⟨_, _, ⟨-, rfl⟩, _, _, ⟨rfl, rfl⟩, hbatch⟩, hrest⟩ := h
      have hv := applyStaticBatch_frame hbatch
      have ht := ih hrest
      exact {
        header := ht.header.trans hv.header
        tables := ht.tables.trans hv.tables
        links := ht.links.trans hv.links
        resolved := fun m i hi => hv.resolved m i (ht.resolved m i hi)
        kept := fun i hi => ht.kept i (hv.kept i hi)
        set := fun _ => (hv.set trivial).imp fun i hi => ht.kept i hi
        unset := fun h => (h (by simp)).elim }

end Values

end Cytrus.Ldr
