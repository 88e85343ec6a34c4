import Mathlib
import Cytrus.Ldr.CroFrame

/-!
# The image of a module

The header and the tables that a module has while it is loaded are a function
of those in its file, and so are those that it has afterwards.
-/

namespace Cytrus.Ldr

open Support

/-! ### The image -/

/-- What `RebaseSegmentTable` makes of an entry. -/
def rebasedSegment (self : VAddr) (p : LoadParams) (g : SegmentEntry) : SegmentEntry :=
  match g.type with
  | .Data => if g.size = 0 then g else { g with offset := p.dataSegmentAddress }
  | .BSS => if g.size = 0 then g else { g with offset := p.bssSegmentAddress }
  | _ => { g with offset := rebased self g.offset }

def rebasedExportNamed (self : VAddr) (e : ExportNamedSymbolEntry) : ExportNamedSymbolEntry :=
  { e with nameOffset := rebased self e.nameOffset }

def rebasedImportModule (self : VAddr) (e : ImportModuleEntry) : ImportModuleEntry :=
  { e with
    nameOffset := rebased self e.nameOffset
    importIndexedSymbolTableOffset := rebased self e.importIndexedSymbolTableOffset
    importAnonymousSymbolTableOffset := rebased self e.importAnonymousSymbolTableOffset }

def rebasedImportNamed (self : VAddr) (e : ImportNamedSymbolEntry) : ImportNamedSymbolEntry :=
  { nameOffset := rebased self e.nameOffset
    relocationBatchOffset := rebased self e.relocationBatchOffset }

def rebasedImportIndexed (self : VAddr) (e : ImportIndexedSymbolEntry) :
    ImportIndexedSymbolEntry :=
  { e with relocationBatchOffset := rebased self e.relocationBatchOffset }

def rebasedImportAnonymous (self : VAddr) (e : AnonymousSymbolEntry) : AnonymousSymbolEntry :=
  { e with relocationBatchOffset := rebased self e.relocationBatchOffset }

/-- The tables behind the first three loops of `Rebase`. -/
def earlyTables (self : VAddr) (p : LoadParams) (t : Tables) : Tables :=
  { t with
    segments := if p.isCrs then t.segments else t.segments.map (rebasedSegment self p)
    exportNamed := t.exportNamed.map (rebasedExportNamed self)
    importModule := t.importModule.map (rebasedImportModule self) }

/-- The tables of a loaded module. -/
def rebasedTables (self : VAddr) (p : LoadParams) (t : Tables) : Tables :=
  { earlyTables self p t with
    importNamed := t.importNamed.map (rebasedImportNamed self)
    importIndexed := t.importIndexed.map (rebasedImportIndexed self)
    importAnonymous := t.importAnonymous.map (rebasedImportAnonymous self) }

/-- Where `Rebase` finds the data in the file. -/
def oldDataSegment (self : VAddr) (p : LoadParams) (t : Tables) : UInt32 :=
  if p.isCrs then 0 else previousDataSegment t.segments + self

/-! ### Entries that are accepted -/

theorem bind_eq_ok {ε α β : Type} {x : Except ε α} {f : α → Except ε β} {b : β}
    (h : (x >>= f) = .ok b) : ∃ a, x = .ok a ∧ f a = .ok b := by
  cases x with
  | error e => cases h
  | ok a => exact ⟨a, rfl, h⟩

theorem rebasedInto_eq_ok {self lo hi offset a : UInt32} {error : ErrorCode} {withEnd : Bool}
    (h : rebasedInto self error lo hi withEnd offset = .ok a) : a = rebased self offset := by
  unfold rebasedInto at h
  unfold rebased
  split_ifs at h ⊢ <;> simp_all

section Entries

variable {self : VAddr} {p : LoadParams} {h : Header} {t : Tables}

theorem rebaseSegment_eq_ok {g g' : SegmentEntry} (hg : rebaseSegment self p g = .ok g') :
    g' = rebasedSegment self p g := by
  obtain ⟨offset, size, type⟩ := g
  unfold rebaseSegment at hg
  unfold rebasedSegment rebased
  cases type <;> dsimp only at hg ⊢ <;> split_ifs at hg ⊢ <;> simp_all

theorem rebaseExportNamed_eq_ok {e e' : ExportNamedSymbolEntry}
    (he : rebaseExportNamed self h t e = .ok e') : e' = rebasedExportNamed self e := by
  obtain ⟨nameOffset, hname, he⟩ := bind_eq_ok he
  obtain rfl := rebasedInto_eq_ok hname
  exact (Except.ok.inj he).symm

theorem rebaseImportModule_eq_ok {e e' : ImportModuleEntry}
    (he : rebaseImportModule self h t e = .ok e') : e' = rebasedImportModule self e := by
  obtain ⟨nameOffset, hname, he⟩ := bind_eq_ok he
  obtain ⟨indexed, hindexed, he⟩ := bind_eq_ok he
  obtain ⟨anonymous, hanonymous, he⟩ := bind_eq_ok he
  obtain rfl := rebasedInto_eq_ok hname
  obtain rfl := rebasedInto_eq_ok hindexed
  obtain rfl := rebasedInto_eq_ok hanonymous
  exact (Except.ok.inj he).symm

theorem rebaseImportNamed_eq_ok {e e' : ImportNamedSymbolEntry}
    (he : rebaseImportNamed self h t e = .ok e') : e' = rebasedImportNamed self e := by
  obtain ⟨nameOffset, hname, he⟩ := bind_eq_ok he
  obtain ⟨batch, hbatch, he⟩ := bind_eq_ok he
  obtain rfl := rebasedInto_eq_ok hname
  obtain rfl := rebasedInto_eq_ok hbatch
  exact (Except.ok.inj he).symm

theorem rebaseImportIndexed_eq_ok {e e' : ImportIndexedSymbolEntry}
    (he : rebaseImportIndexed self h t e = .ok e') : e' = rebasedImportIndexed self e := by
  obtain ⟨batch, hbatch, he⟩ := bind_eq_ok he
  obtain rfl := rebasedInto_eq_ok hbatch
  exact (Except.ok.inj he).symm

theorem rebaseImportAnonymous_eq_ok {e e' : AnonymousSymbolEntry}
    (he : rebaseImportAnonymous self h t e = .ok e') : e' = rebasedImportAnonymous self e := by
  obtain ⟨batch, hbatch, he⟩ := bind_eq_ok he
  obtain rfl := rebasedInto_eq_ok hbatch
  exact (Except.ok.inj he).symm

end Entries

/-! ### Loops that come to their end -/

theorem rewriteList_eq_map {α : Type} {f : α → Except ErrorCode α} {g : α → α}
    (hfg : ∀ a b, f a = .ok b → b = g a) {l : List α} (h : (rewriteList f l).2 = none) :
    (rewriteList f l).1 = l.map g := by
  induction l with
  | nil => rfl
  | cons a l ih =>
      rw [rewriteList] at h ⊢
      cases hf : f a with
      | error e => simp [hf] at h
      | ok b =>
          simp only [hf] at h ⊢
          rw [ih h, hfg a b hf, List.map_cons]

theorem rewriteTable_eq_value {α : Type} {self : VAddr} {look : Tables → List α}
    {put : Tables → List α → Tables} {f : α → Except ErrorCode α} {g : α → α}
    (hfg : ∀ a b, f a = .ok b → b = g a) {s t : LoaderState} {a : Unit}
    (h : rewriteTable self look put f s = .value a t) :
    t = s.setTables self (put (s.tables self) ((look (s.tables self)).map g)) := by
  simp only [rewriteTable, Exec.get_bind, Exec.modify_bind] at h
  cases hr : (rewriteList f (look (s.tables self))).2 with
  | some e =>
      rw [hr] at h
      simp [Exec.throw] at h
  | none =>
      rw [hr] at h
      rw [← rewriteList_eq_map hfg hr]
      exact (Exec.pure_eq_value.mp h).2.symm

theorem rebaseHeader_eq_value {self : VAddr} {croSize : UInt32} {s t : LoaderState} {a : Unit}
    (h : rebaseHeader self croSize s = .value a t) :
    t = s.setHeader self (rebasedHeader self (s.header self)) ∧
      CROHelper.nextModule s.links self = 0 ∧ CROHelper.previousModule s.links self = 0 ∧
      (s.header self).fixedSize = 0 := by
  simp only [rebaseHeader, Exec.get_bind, Exec.bind_eq_value, Exec.require_eq_value,
    Exec.modify_eq_value] at h
  obtain ⟨_, _, ⟨_, rfl⟩, _, _, ⟨hlinks, rfl⟩, _, _, ⟨_, rfl⟩, _, _, ⟨hfixed, rfl⟩,
    _, _, ⟨_, rfl⟩, _, _, ⟨_, rfl⟩, _, _, rfl, _, rfl⟩ := h
  exact ⟨rfl, hlinks.1, hlinks.2, hfixed⟩

theorem verifyStringTableLength_eq_value {text : Strings} {self : VAddr} {c : Section}
    {s t : LoaderState} {a : Unit} (h : verifyStringTableLength text self c s = .value a t) :
    s = t := by
  simp only [verifyStringTableLength, Exec.get_bind, Exec.require_eq_value] at h
  exact h.2

theorem verifyExportTreeTable_eq_value {self : VAddr} {s t : LoaderState} {a : Unit}
    (h : verifyExportTreeTable self s = .value a t) : s = t := by
  simp only [verifyExportTreeTable, Exec.get_bind, Exec.require_eq_value] at h
  exact h.2

theorem rebaseSegmentTable_eq_value {self : VAddr} {p : LoadParams} {s t : LoaderState}
    {a : UInt32} (h : rebaseSegmentTable self p s = .value a t) :
    a = previousDataSegment (s.tables self).segments + self ∧
      t = s.setTables self { s.tables self with
        segments := (s.tables self).segments.map (rebasedSegment self p) } := by
  simp only [rebaseSegmentTable, Exec.get_bind, Exec.bind_eq_value, Exec.pure_eq_value] at h
  obtain ⟨_, _, htable, rfl, rfl⟩ := h
  exact ⟨rfl, rewriteTable_eq_value (fun _ _ => rebaseSegment_eq_ok) htable⟩

theorem rebaseSegments_eq_value {self : VAddr} {p : LoadParams} {s t : LoaderState} {a : UInt32}
    (h : rebaseSegments self p s = .value a t) :
    a = oldDataSegment self p (s.tables self) ∧
      t = s.setTables self { s.tables self with
        segments := if p.isCrs then (s.tables self).segments
          else (s.tables self).segments.map (rebasedSegment self p) } := by
  unfold rebaseSegments at h
  unfold oldDataSegment
  by_cases hcrs : p.isCrs = true
  · simp only [hcrs, ↓reduceIte, Exec.pure_eq_value] at h ⊢
    obtain ⟨rfl, rfl⟩ := h
    exact ⟨rfl, by simp [LoaderState.setTables]⟩
  · simp only [hcrs] at h ⊢
    exact rebaseSegmentTable_eq_value h

theorem rebaseExportNamedSymbolTable_eq_value {self : VAddr} {s t : LoaderState} {a : Unit}
    (h : rebaseExportNamedSymbolTable self s = .value a t) :
    t = s.setTables self { s.tables self with
      exportNamed := (s.tables self).exportNamed.map (rebasedExportNamed self) } := by
  rw [rebaseExportNamedSymbolTable, Exec.get_bind] at h
  exact rewriteTable_eq_value (fun _ _ => rebaseExportNamed_eq_ok) h

theorem rebaseImportModuleTable_eq_value {self : VAddr} {s t : LoaderState} {a : Unit}
    (h : rebaseImportModuleTable self s = .value a t) :
    t = s.setTables self { s.tables self with
      importModule := (s.tables self).importModule.map (rebasedImportModule self) } := by
  rw [rebaseImportModuleTable, Exec.get_bind] at h
  exact rewriteTable_eq_value (fun _ _ => rebaseImportModule_eq_ok) h

theorem rebaseImportNamedSymbolTable_eq_value {self : VAddr} {s t : LoaderState} {a : Unit}
    (h : rebaseImportNamedSymbolTable self s = .value a t) :
    t = s.setTables self { s.tables self with
      importNamed := (s.tables self).importNamed.map (rebasedImportNamed self) } := by
  rw [rebaseImportNamedSymbolTable, Exec.get_bind] at h
  exact rewriteTable_eq_value (fun _ _ => rebaseImportNamed_eq_ok) h

theorem rebaseImportIndexedSymbolTable_eq_value {self : VAddr} {s t : LoaderState} {a : Unit}
    (h : rebaseImportIndexedSymbolTable self s = .value a t) :
    t = s.setTables self { s.tables self with
      importIndexed := (s.tables self).importIndexed.map (rebasedImportIndexed self) } := by
  rw [rebaseImportIndexedSymbolTable, Exec.get_bind] at h
  exact rewriteTable_eq_value (fun _ _ => rebaseImportIndexed_eq_ok) h

theorem rebaseImportAnonymousSymbolTable_eq_value {self : VAddr} {s t : LoaderState} {a : Unit}
    (h : rebaseImportAnonymousSymbolTable self s = .value a t) :
    t = s.setTables self { s.tables self with
      importAnonymous := (s.tables self).importAnonymous.map (rebasedImportAnonymous self) } := by
  rw [rebaseImportAnonymousSymbolTable, Exec.get_bind] at h
  exact rewriteTable_eq_value (fun _ _ => rebaseImportAnonymous_eq_ok) h

@[simp] theorem LoaderState.tables_setTables (s : LoaderState) (self : VAddr) (t : Tables) :
    (s.setTables self t).tables self = t := Function.update_self ..

@[simp] theorem LoaderState.tables_setHeader (s : LoaderState) (self : VAddr) (h : Header) :
    (s.setHeader self h).tables = s.tables := rfl

@[simp] theorem LoaderState.setTables_setTables (s : LoaderState) (self : VAddr) (t t' : Tables) :
    (s.setTables self t).setTables self t' = s.setTables self t' := by
  simp [LoaderState.setTables]

/-- The parts of `Rebase` that relocate, between the loops over the tables. -/
structure RebaseRun (text : Strings) (m : VAddr) (p : LoadParams) (s t : LoaderState) :
    Prop where
  nextModule : CROHelper.nextModule s.links m = 0
  previousModule : CROHelper.previousModule s.links m = 0
  fixedSize : (s.header m).fixedSize = 0
  relocations : ∃ v x y,
    resetExternalRelocations m
      ((s.setHeader m (rebasedHeader m (s.header m))).setTables m
        (earlyTables m p (s.tables m))) = .value () v ∧
    Exec.when (¬ p.isCrs) (applyStaticAnonymousSymbolToCRS m p.crs)
      (v.setTables m (rebasedTables m p (s.tables m))) = .value () x ∧
    applyInternalRelocations m (oldDataSegment m p (s.tables m)) x = .value () y ∧
    Exec.when (¬ p.isCrs) (applyExitRelocations text m p.crs) y = .value () t

theorem RebaseRun.of_value {text : Strings} {self : VAddr} {p : LoadParams} {s t : LoaderState}
    (h : rebase text self p s = .value () t) : RebaseRun text self p s t := by
  simp only [rebase, Exec.bind_eq_value] at h
  obtain ⟨_, s₁, hheader, _, s₂, hname, old, s₃, hsegments, _, s₄, hexport, _, s₅, htree,
    _, s₆, hstrings, _, s₇, himport, _, v, hreset, _, s₈, hnamed, _, s₉, hindexed, _, s₁₀,
    hanonymous, _, s₁₁, hlast, _, x, hstatic, _, y, hinternal, hexit⟩ := h
  obtain ⟨rfl, hnext, hprevious, hfixed⟩ := rebaseHeader_eq_value hheader
  obtain rfl := verifyStringTableLength_eq_value hname
  obtain ⟨rfl, rfl⟩ := rebaseSegments_eq_value hsegments
  obtain rfl := rebaseExportNamedSymbolTable_eq_value hexport
  obtain rfl := verifyExportTreeTable_eq_value htree
  obtain rfl := verifyStringTableLength_eq_value hstrings
  obtain rfl := rebaseImportModuleTable_eq_value himport
  have hv := (Frame.refl (P := fun _ _ => False)).resetExternalRelocations self |>.value hreset
  obtain rfl := rebaseImportNamedSymbolTable_eq_value hnamed
  obtain rfl := rebaseImportIndexedSymbolTable_eq_value hindexed
  obtain rfl := rebaseImportAnonymousSymbolTable_eq_value hanonymous
  obtain rfl := verifyStringTableLength_eq_value hlast
  refine ⟨hnext, hprevious, hfixed, v, x, y, ?_, ?_, hinternal, hexit⟩
  · simpa [earlyTables] using hreset
  · simpa [hv.tables, rebasedTables, earlyTables] using hstatic

end Cytrus.Ldr
