import Mathlib
import Cytrus.Support.HalfCircular

/-!
# The lists of registered modules

The relocatable modules of a process are on two lists, one of the modules that
are linked automatically and one of the others. Their links are words in the
headers of the modules, and the static module has the heads of both where the
others have their links.

## Main results

* `moduleLists`: the lists hold the registered modules in the order of their
  registrations, after every sequence of calls
-/

namespace Cytrus.Ldr

open Support

abbrev VAddr := UInt32

/-- The words of memory, by address. -/
abbrev Memory := VAddr → UInt32

/-- `HeaderField`, as far as the lists go. -/
inductive HeaderField
  | NextCRO | PreviousCRO
  deriving DecidableEq

/-- The place of a field in the header. -/
def HeaderField.index : HeaderField → UInt32
  | NextCRO => 2
  | PreviousCRO => 3

def croHashSize : UInt32 := 0x80

/-- No bit of `CITRA_PAGE_MASK`. -/
def Aligned (a : VAddr) : Prop := a.toNat % 0x1000 = 0

namespace CROHelper

def field (moduleAddress : VAddr) (f : HeaderField) : VAddr :=
  moduleAddress + croHashSize + f.index * 4

def getField (mem : Memory) (moduleAddress : VAddr) (f : HeaderField) : UInt32 :=
  mem (field moduleAddress f)

def setField (mem : Memory) (moduleAddress : VAddr) (f : HeaderField) (value : UInt32) : Memory :=
  Function.update mem (field moduleAddress f) value

def nextModule (mem : Memory) (moduleAddress : VAddr) : VAddr :=
  getField mem moduleAddress .NextCRO

def previousModule (mem : Memory) (moduleAddress : VAddr) : VAddr :=
  getField mem moduleAddress .PreviousCRO

def setNextModule (mem : Memory) (moduleAddress next : VAddr) : Memory :=
  setField mem moduleAddress .NextCRO next

def setPreviousModule (mem : Memory) (moduleAddress previous : VAddr) : Memory :=
  setField mem moduleAddress .PreviousCRO previous

def initCRS (mem : Memory) (crs : VAddr) : Memory :=
  setPreviousModule (setNextModule mem crs 0) crs 0

/-- The head of the list of a kind. -/
def headModule (mem : Memory) (crs : VAddr) (autoLink : Bool) : VAddr :=
  if autoLink then nextModule mem crs else previousModule mem crs

def setHeadModule (mem : Memory) (crs : VAddr) (autoLink : Bool) (head : VAddr) : Memory :=
  if autoLink then setNextModule mem crs head else setPreviousModule mem crs head

/-- `Register`. There is no result when the assertion fails. -/
def register (mem : Memory) (self crs : VAddr) (autoLink : Bool) : Option Memory :=
  let head := headModule mem crs autoLink
  if head ≠ 0 then
    let tail := previousModule mem head
    if nextModule mem tail ≠ 0 then none
    else
      let mem := setPreviousModule mem self tail
      let mem := setNextModule mem tail self
      let mem := setPreviousModule mem head self
      some (setNextModule mem self 0)
  else
    let mem := setPreviousModule mem self self
    let mem := setHeadModule mem crs autoLink self
    some (setNextModule mem self 0)

/-- The branch of `Unregister` for the head of a list. -/
def unregisterHead (mem : Memory) (self crs previousHead next previous : VAddr) : Memory :=
  let mem := if next ≠ 0 then setPreviousModule mem next previous else mem
  if self = previousHead then setPreviousModule mem crs next else setNextModule mem crs next

/-- The branch for the tail of a list. There is no result when neither list
has it. -/
def unregisterTail (mem : Memory) (self nextHead previousHead previous : VAddr) : Option Memory :=
  let mem := setNextModule mem previous 0
  if nextHead ≠ 0 ∧ previousModule mem nextHead = self then
    some (setPreviousModule mem nextHead previous)
  else if previousHead ≠ 0 ∧ previousModule mem previousHead = self then
    some (setPreviousModule mem previousHead previous)
  else none

/-- The end of `Unregister`. -/
def unlinkSelf (mem : Memory) (self : VAddr) : Memory :=
  setPreviousModule (setNextModule mem self 0) self 0

def unregister (mem : Memory) (self crs : VAddr) : Option Memory :=
  let nextHead := nextModule mem crs
  let previousHead := previousModule mem crs
  let next := nextModule mem self
  let previous := previousModule mem self
  if self = nextHead ∨ self = previousHead then
    some (unlinkSelf (unregisterHead mem self crs previousHead next previous) self)
  else if next ≠ 0 then
    some (unlinkSelf (setPreviousModule (setNextModule mem previous next) next previous) self)
  else
    (unregisterTail mem self nextHead previousHead previous).map fun mem => unlinkSelf mem self

/-! ### The words of the headers -/

variable {mem : Memory} {a b v : VAddr}

theorem field_ne {f g : HeaderField} (ha : Aligned a) (hb : Aligned b) (hfg : f ≠ g) :
    field a f ≠ field b g := by
  intro h
  have h := congrArg UInt32.toNat h
  have ha : a.toNat % 4096 = 0 := ha
  have hb : b.toNat % 4096 = 0 := hb
  cases f <;> cases g <;>
    simp [field, croHashSize, HeaderField.index, UInt32.toNat_add] at h hfg <;> omega

theorem field_inj {f : HeaderField} : field a f = field b f ↔ a = b := by
  simp [field]

theorem nextModule_setNextModule :
    nextModule (setNextModule mem a v) b = if b = a then v else nextModule mem b := by
  simp only [nextModule, setNextModule, getField, setField, Function.update_apply, field_inj]

theorem previousModule_setPreviousModule :
    previousModule (setPreviousModule mem a v) b = if b = a then v else previousModule mem b := by
  simp only [previousModule, setPreviousModule, getField, setField, Function.update_apply,
    field_inj]

theorem nextModule_setPreviousModule (ha : Aligned a) (hb : Aligned b) :
    nextModule (setPreviousModule mem a v) b = nextModule mem b := by
  have hne : field b .NextCRO ≠ field a .PreviousCRO := field_ne hb ha (by rintro ⟨⟩)
  simp only [nextModule, setPreviousModule, getField, setField, Function.update_of_ne hne]

theorem previousModule_setNextModule (ha : Aligned a) (hb : Aligned b) :
    previousModule (setNextModule mem a v) b = previousModule mem b := by
  have hne : field b .PreviousCRO ≠ field a .NextCRO := field_ne hb ha (by rintro ⟨⟩)
  simp only [previousModule, setNextModule, getField, setField, Function.update_of_ne hne]

theorem headModule_true : headModule mem a true = nextModule mem a := rfl

theorem headModule_false : headModule mem a false = previousModule mem a := rfl

theorem setHeadModule_true : setHeadModule mem a true v = setNextModule mem a v := rfl

theorem setHeadModule_false : setHeadModule mem a false v = setPreviousModule mem a v := rfl

theorem nextModule_unlinkSelf (ha : Aligned a) (hb : Aligned b) (hne : b ≠ a) :
    nextModule (unlinkSelf mem a) b = nextModule mem b := by
  rw [unlinkSelf, nextModule_setPreviousModule ha hb, nextModule_setNextModule, if_neg hne]

theorem previousModule_unlinkSelf (ha : Aligned a) (hb : Aligned b) (hne : b ≠ a) :
    previousModule (unlinkSelf mem a) b = previousModule mem b := by
  rw [unlinkSelf, previousModule_setPreviousModule, if_neg hne, previousModule_setNextModule ha hb]

/-- Only the static module has the heads. -/
theorem nextModule_setHeadModule (k : Bool) (ha : Aligned a) (hb : Aligned b) (hne : b ≠ a) :
    nextModule (setHeadModule mem a k v) b = nextModule mem b := by
  cases k
  · rw [setHeadModule_false, nextModule_setPreviousModule ha hb]
  · rw [setHeadModule_true, nextModule_setNextModule, if_neg hne]

theorem previousModule_setHeadModule (k : Bool) (ha : Aligned a) (hb : Aligned b) (hne : b ≠ a) :
    previousModule (setHeadModule mem a k v) b = previousModule mem b := by
  cases k
  · rw [setHeadModule_false, previousModule_setPreviousModule, if_neg hne]
  · rw [setHeadModule_true, previousModule_setNextModule ha hb]

theorem headModule_setHeadModule (k : Bool) : headModule (setHeadModule mem a k v) a k = v := by
  cases k
  · rw [headModule_false, setHeadModule_false, previousModule_setPreviousModule, if_pos rfl]
  · rw [headModule_true, setHeadModule_true, nextModule_setNextModule, if_pos rfl]

theorem headModule_setHeadModule_not (k : Bool) (ha : Aligned a) :
    headModule (setHeadModule mem a k v) a (!k) = headModule mem a !k := by
  cases k
  · rw [Bool.not_false, headModule_true, headModule_true, setHeadModule_false,
      nextModule_setPreviousModule ha ha]
  · rw [Bool.not_true, headModule_false, headModule_false, setHeadModule_true,
      previousModule_setNextModule ha ha]

theorem headModule_setNextModule (k : Bool) (ha : Aligned a) (hb : Aligned b) (hne : b ≠ a) :
    headModule (setNextModule mem a v) b k = headModule mem b k := by
  cases k
  · rw [headModule_false, headModule_false, previousModule_setNextModule ha hb]
  · rw [headModule_true, headModule_true, nextModule_setNextModule, if_neg hne]

theorem headModule_setPreviousModule (k : Bool) (ha : Aligned a) (hb : Aligned b) (hne : b ≠ a) :
    headModule (setPreviousModule mem a v) b k = headModule mem b k := by
  cases k
  · rw [headModule_false, headModule_false, previousModule_setPreviousModule, if_neg hne]
  · rw [headModule_true, headModule_true, nextModule_setPreviousModule ha hb]

theorem headModule_unlinkSelf (k : Bool) (ha : Aligned a) (hb : Aligned b) (hne : b ≠ a) :
    headModule (unlinkSelf mem a) b k = headModule mem b k := by
  rw [unlinkSelf, headModule_setPreviousModule k ha hb hne, headModule_setNextModule k ha hb hne]

end CROHelper

/-- The registered modules of each kind, in the order of registration. -/
abbrev Registry := Bool → List VAddr

open CROHelper

/-- The memory has the lists of the registered modules. -/
structure Linked (crs : VAddr) (mem : Memory) (reg : Registry) : Prop where
  list : ∀ k, HalfCircular (nextModule mem) (previousModule mem) 0 (reg k)
  head : ∀ k, headModule mem crs k = (reg k).headD 0
  disjoint : ∀ k, (reg k).Disjoint (reg !k)
  crs_notMem : ∀ k, crs ∉ reg k
  aligned : ∀ k, ∀ a ∈ reg k, Aligned a
  crs_aligned : Aligned crs

namespace Linked

variable {crs self : VAddr} {mem mem' : Memory} {reg : Registry} {k : Bool} {l : List VAddr}

theorem replace (h : Linked crs mem reg)
    (hl : HalfCircular (nextModule mem') (previousModule mem') 0 l)
    (hhead : headModule mem' crs k = l.headD 0)
    (hother : headModule mem' crs (!k) = headModule mem crs (!k))
    (hframe : ∀ a ∈ reg !k, nextModule mem a = nextModule mem' a ∧
      previousModule mem a = previousModule mem' a)
    (hl_mem : ∀ a ∈ l, Aligned a ∧ a ≠ crs ∧ a ∉ reg !k) :
    Linked crs mem' (Function.update reg k l) := by
  have hk : Function.update reg k l k = l := Function.update_self ..
  have hne : Function.update reg k l (!k) = reg !k := Function.update_of_ne (by simp) ..
  have hall {p : Bool → Prop} (hp : p k) (hp' : p !k) : ∀ j, p j := fun j => by
    rcases Bool.eq_or_eq_not j k with rfl | rfl
    · exact hp
    · exact hp'
  refine ⟨hall ?_ ?_, hall ?_ ?_, hall ?_ ?_, hall ?_ ?_, hall ?_ ?_, h.crs_aligned⟩
  · rwa [hk]
  · rw [hne]
    exact (h.list _).congr (fun a ha => (hframe a ha).1) fun a ha => (hframe a ha).2
  · rwa [hk]
  · rw [hne, hother, h.head]
  · rw [hk, hne]
    exact fun a ha ha' => (hl_mem a ha).2.2 ha'
  · rw [Bool.not_not, hk, hne]
    exact fun a ha ha' => (hl_mem a ha').2.2 ha
  · rw [hk]
    exact fun ha => (hl_mem crs ha).2.1 rfl
  · rw [hne]
    exact h.crs_notMem _
  · rw [hk]
    exact fun a ha => (hl_mem a ha).1
  · rw [hne]
    exact h.aligned _

theorem head_eq (h : Linked crs mem reg) (hne : reg k ≠ []) :
    headModule mem crs k = (reg k).head hne := by
  rw [h.head, List.headD_eq_head?_getD, List.head?_eq_some_head hne, Option.getD_some]

theorem head_eq_zero_iff (h : Linked crs mem reg) : headModule mem crs k = 0 ↔ reg k = [] := by
  constructor
  · intro h0
    by_contra hne
    rw [h.head_eq hne] at h0
    exact (h.list k).null_notMem (h0 ▸ List.head_mem hne)
  · intro hnil
    rw [h.head, hnil]
    rfl

theorem head_mem (h : Linked crs mem reg) (hne : headModule mem crs k ≠ 0) :
    headModule mem crs k ∈ reg k ∧ previousModule mem (headModule mem crs k) ∈ reg k := by
  have hne := mt h.head_eq_zero_iff.2 hne
  rw [h.head_eq hne, (h.list k).prev_head hne]
  exact ⟨List.head_mem hne, List.getLast_mem hne⟩

theorem initCRS (hcrs : Aligned crs) (mem : Memory) :
    Linked crs (initCRS mem crs) fun _ => [] where
  list _ := .nil
  head k := by
    cases k
    · rw [CROHelper.initCRS, headModule_false, previousModule_setPreviousModule, if_pos rfl]
      rfl
    · rw [CROHelper.initCRS, headModule_true, nextModule_setPreviousModule hcrs hcrs,
        nextModule_setNextModule, if_pos rfl]
      rfl
  disjoint _ := List.disjoint_nil_left _
  crs_notMem _ := List.not_mem_nil
  aligned _ _ ha := absurd ha List.not_mem_nil
  crs_aligned := hcrs

theorem register (h : Linked crs mem reg) (haligned : Aligned self) (hnull : self ≠ 0)
    (hcrs : self ≠ crs) (hnew : ∀ k, self ∉ reg k) (k : Bool) :
    ∃ mem', register mem self crs k = some mem' ∧
      Linked crs mem' (Function.update reg k (reg k ++ [self])) := by
  have hcalign := h.crs_aligned
  have hmem (a : VAddr) (ha : a ∈ reg k ++ [self]) : Aligned a ∧ a ≠ crs ∧ a ∉ reg !k := by
    rw [List.mem_append, List.mem_singleton] at ha
    rcases ha with ha | rfl
    · exact ⟨h.aligned k a ha, fun heq => h.crs_notMem k (heq ▸ ha), h.disjoint k ha⟩
    · exact ⟨haligned, hcrs, hnew _⟩
  rw [CROHelper.register]
  by_cases hempty : reg k = []
  · -- the first one of its kind
    have hhead : headModule mem crs k = 0 := by rw [h.head, hempty]; rfl
    rw [hhead]
    refine ⟨_, rfl, h.replace ?_ ?_ ?_ ?_ hmem⟩
    · rw [hempty]
      refine .singleton hnull ((nextModule_setNextModule).trans (if_pos rfl)) ?_
      rw [previousModule_setNextModule haligned haligned,
        previousModule_setHeadModule k hcalign haligned hcrs, previousModule_setPreviousModule,
        if_pos rfl]
    · rw [headModule_setNextModule k haligned hcalign (Ne.symm hcrs), headModule_setHeadModule, hempty]
      rfl
    · rw [headModule_setNextModule _ haligned hcalign (Ne.symm hcrs),
        headModule_setHeadModule_not k hcalign,
        headModule_setPreviousModule _ haligned hcalign (Ne.symm hcrs)]
    · intro a ha
      have haa := h.aligned _ a ha
      have hac : a ≠ crs := fun heq => h.crs_notMem _ (heq ▸ ha)
      have has : a ≠ self := fun heq => hnew _ (heq ▸ ha)
      rw [nextModule_setNextModule, if_neg has, nextModule_setHeadModule k hcalign haa hac,
        nextModule_setPreviousModule haligned haa, previousModule_setNextModule haligned haa,
        previousModule_setHeadModule k hcalign haa hac, previousModule_setPreviousModule,
        if_neg has]
      exact ⟨rfl, rfl⟩
  · -- behind the tail, which the head names
    have hlist := h.list k
    obtain ⟨hd, rest, hcons⟩ := List.exists_cons_of_ne_nil hempty
    set l := reg k with hl
    have hhead : headModule mem crs k = l.head hempty := h.head_eq hempty
    have htail := hlist.prev_head hempty
    have hend := hlist.next_getLast hempty
    have hhmem := List.head_mem hempty
    have htmem := List.getLast_mem hempty
    have hh0 : l.head hempty ≠ 0 := fun heq => hlist.null_notMem (heq ▸ hhmem)
    have hha := h.aligned k _ hhmem
    have hta := h.aligned k _ htmem
    have hself (a : VAddr) (j : Bool) (ha : a ∈ reg j) : a ≠ self := fun heq => hnew j (heq ▸ ha)
    have hcrsne (a : VAddr) (j : Bool) (ha : a ∈ reg j) : crs ≠ a := fun heq =>
      h.crs_notMem j (heq ▸ ha)
    dsimp only
    rw [hhead, if_pos hh0, htail, hend, if_neg (not_not.2 rfl)]
    refine ⟨_, rfl, h.replace ?_ ?_ ?_ ?_ hmem⟩
    · -- what the calls leave in the words of the list
      refine hlist.concat hempty (hnew k) hnull (fun a ha hne => ?_) ?_ ?_ (fun a ha hne => ?_) ?_ ?_
      · have haa := h.aligned k a ha
        rw [nextModule_setNextModule, if_neg (hself a k ha), nextModule_setPreviousModule hha haa,
          nextModule_setNextModule, if_neg hne, nextModule_setPreviousModule haligned haa]
      · rw [nextModule_setNextModule, if_neg (hself _ k htmem),
          nextModule_setPreviousModule hha hta, nextModule_setNextModule, if_pos rfl]
      · exact (nextModule_setNextModule).trans (if_pos rfl)
      · have haa := h.aligned k a ha
        rw [previousModule_setNextModule haligned haa, previousModule_setPreviousModule,
          if_neg hne, previousModule_setNextModule hta haa, previousModule_setPreviousModule,
          if_neg (hself a k ha)]
      · rw [previousModule_setNextModule haligned hha, previousModule_setPreviousModule, if_pos rfl]
      · rw [previousModule_setNextModule haligned haligned, previousModule_setPreviousModule,
          if_neg (hself _ k hhmem).symm, previousModule_setNextModule hta haligned,
          previousModule_setPreviousModule, if_pos rfl]
    · rw [headModule_setNextModule k haligned hcalign hcrs.symm,
        headModule_setPreviousModule k hha hcalign (hcrsne _ k hhmem),
        headModule_setNextModule k hta hcalign (hcrsne _ k htmem),
        headModule_setPreviousModule k haligned hcalign hcrs.symm, hhead]
      simp only [hcons, List.head_cons, List.cons_append, List.headD_cons]
    · rw [headModule_setNextModule _ haligned hcalign hcrs.symm,
        headModule_setPreviousModule _ hha hcalign (hcrsne _ k hhmem),
        headModule_setNextModule _ hta hcalign (hcrsne _ k htmem),
        headModule_setPreviousModule _ haligned hcalign hcrs.symm]
    · intro a ha
      have haa := h.aligned _ a ha
      have hdisjoint {b : VAddr} (hb : b ∈ l) : a ≠ b := fun heq => h.disjoint k hb (heq ▸ ha)
      rw [nextModule_setNextModule, if_neg (hself a _ ha), nextModule_setPreviousModule hha haa,
        nextModule_setNextModule, if_neg (hdisjoint htmem),
        nextModule_setPreviousModule haligned haa, previousModule_setNextModule haligned haa,
        previousModule_setPreviousModule, if_neg (hdisjoint hhmem),
        previousModule_setNextModule hta haa, previousModule_setPreviousModule,
        if_neg (hself a _ ha)]
      exact ⟨rfl, rfl⟩

theorem ne_of_mem (h : Linked crs mem reg) {a b : VAddr} (ha : a ∈ reg k) (hb : b ∈ reg !k) :
    b ≠ a := fun heq => h.disjoint k ha (heq ▸ hb)

theorem crs_ne (h : Linked crs mem reg) {a : VAddr} (ha : a ∈ reg k) : crs ≠ a := fun heq =>
  h.crs_notMem k (heq ▸ ha)

/-- A registered module is only at the head of its own list. -/
theorem headModule_not_ne (h : Linked crs mem reg) (hself : self ∈ reg k) :
    self ≠ headModule mem crs !k := by
  intro heq
  have hne : headModule mem crs (!k) ≠ 0 := fun h0 => by
    rw [← heq] at h0
    exact (h.list k).null_notMem (h0 ▸ hself)
  exact h.ne_of_mem hself (h.head_mem hne).1 heq.symm

theorem head_cases (h : Linked crs mem reg) (hself : self ∈ reg k) :
    (self = nextModule mem crs ∨ self = previousModule mem crs) ↔ self = headModule mem crs k := by
  have hne := h.headModule_not_ne hself
  cases k
  · exact or_iff_right hne
  · exact or_iff_left hne

theorem unregisterHead_eq (h : Linked crs mem reg) (hself : self ∈ reg k)
    (hhead : self = headModule mem crs k) (next previous : VAddr) :
    unregisterHead mem self crs (previousModule mem crs) next previous =
      setHeadModule (if next ≠ 0 then setPreviousModule mem next previous else mem) crs k next := by
  have hne := h.headModule_not_ne hself
  cases k
  · exact if_pos hhead
  · exact if_neg hne

theorem unregisterTail_eq (h : Linked crs mem reg) (hself : self ∈ reg k)
    (htail : previousModule mem (headModule mem crs k) = self) {previous : VAddr}
    (hprevious : Aligned previous) :
    unregisterTail mem self (nextModule mem crs) (previousModule mem crs) previous =
      some (setPreviousModule (setNextModule mem previous 0) (headModule mem crs k) previous) := by
  have hk : headModule mem crs k ≠ 0 := mt h.head_eq_zero_iff.1 (List.ne_nil_of_mem hself)
  have hprev {j : Bool} (hj : headModule mem crs j ≠ 0) :
      previousModule (setNextModule mem previous 0) (headModule mem crs j) =
        previousModule mem (headModule mem crs j) :=
    previousModule_setNextModule hprevious (h.aligned j _ (h.head_mem hj).1)
  cases k
  · -- the head of the other list names another tail
    have hother : ¬ (nextModule mem crs ≠ 0 ∧
        previousModule (setNextModule mem previous 0) (nextModule mem crs) = self) := by
      rintro ⟨h0, heq⟩
      have heq : previousModule mem (headModule mem crs true) = self :=
        (hprev (j := true) h0).symm.trans heq
      exact h.ne_of_mem hself (h.head_mem (k := true) h0).2 heq
    exact (if_neg hother).trans (if_pos ⟨hk, (hprev hk).trans htail⟩)
  · exact if_pos ⟨hk, (hprev hk).trans htail⟩

theorem remove (h : Linked crs mem reg) (hself : self ∈ reg k)
    (hl : HalfCircular (nextModule mem') (previousModule mem') 0 l)
    (hsub : ∀ a ∈ l, a ∈ reg k ∧ a ≠ self) (hhead : headModule mem' crs k = l.headD 0)
    (hother : headModule mem' crs (!k) = headModule mem crs (!k))
    (hframe : ∀ a ∈ reg !k, nextModule mem a = nextModule mem' a ∧
      previousModule mem a = previousModule mem' a) :
    Linked crs (unlinkSelf mem' self) (Function.update reg k l) := by
  have hs := h.aligned k _ hself
  have hc := h.crs_aligned
  refine h.replace (hl.congr (fun a ha => ?_) fun a ha => ?_) ?_ ?_ (fun a ha => ?_) fun a ha => ?_
  · exact (nextModule_unlinkSelf hs (h.aligned k a (hsub a ha).1) (hsub a ha).2).symm
  · exact (previousModule_unlinkSelf hs (h.aligned k a (hsub a ha).1) (hsub a ha).2).symm
  · rw [headModule_unlinkSelf k hs hc (h.crs_ne hself), hhead]
  · rw [headModule_unlinkSelf _ hs hc (h.crs_ne hself), hother]
  · have haa := h.aligned _ a ha
    have has := h.ne_of_mem hself ha
    rw [nextModule_unlinkSelf hs haa has, previousModule_unlinkSelf hs haa has]
    exact hframe a ha
  · have ha := (hsub a ha).1
    exact ⟨h.aligned k a ha, (h.crs_ne ha).symm, h.disjoint k ha⟩

theorem of_mem_append (h : Linked crs mem reg) {xs ys : List VAddr}
    (hreg : reg k = xs ++ self :: ys) {a : VAddr} (ha : a ∈ xs ++ ys) : a ∈ reg k ∧ a ≠ self := by
  have hnodup := (h.list k).nodup
  rw [hreg, List.nodup_middle, List.nodup_cons] at hnodup
  constructor
  · rw [hreg]
    exact ((List.sublist_cons_self self ys).append_left xs).mem ha
  · rintro rfl
    exact hnodup.1 ha

theorem unregister_head {ys : List VAddr} (h : Linked crs mem reg) (hcons : reg k = self :: ys) :
    ∃ mem', unregister mem self crs = some mem' ∧ Linked crs mem' (Function.update reg k ys) := by
  have hself : self ∈ reg k := by rw [hcons]; exact List.mem_cons_self
  have hlist := h.list k
  rw [hcons] at hlist
  have hhead : self = headModule mem crs k := by rw [h.head, hcons, List.headD_cons]
  have hnext : nextModule mem self = ys.headD 0 :=
    HalfCircular.next_eq (show HalfCircular _ _ 0 ([] ++ self :: ys) from hlist)
  have hc := h.crs_aligned
  have hsub (a : VAddr) (ha : a ∈ ys) :=
    h.of_mem_append (show reg k = [] ++ self :: ys from hcons) ha
  rw [CROHelper.unregister, if_pos ((h.head_cases hself).2 hhead), h.unregisterHead_eq hself hhead,
    hnext]
  cases ys with
  | nil =>
      refine ⟨_, rfl, h.remove hself .nil hsub (headModule_setHeadModule k)
        (headModule_setHeadModule_not k hc) fun a ha => ?_⟩
      have haa := h.aligned _ a ha
      have hac := (h.crs_ne ha).symm
      exact ⟨(nextModule_setHeadModule k hc haa hac).symm,
        (previousModule_setHeadModule k hc haa hac).symm⟩
  | cons b ys =>
      have hb : b ∈ reg k := (hsub b List.mem_cons_self).1
      have hba := h.aligned k b hb
      have hb0 : b ≠ 0 := fun h0 =>
        hlist.null_notMem (h0 ▸ List.mem_cons_of_mem self List.mem_cons_self)
      rw [List.headD_cons, if_pos hb0]
      have hn {a : VAddr} {j : Bool} (ha : a ∈ reg j) :
          nextModule (setHeadModule (setPreviousModule mem b (previousModule mem self)) crs k b) a =
            nextModule mem a := by
        have haa := h.aligned j a ha
        rw [nextModule_setHeadModule k hc haa (h.crs_ne ha).symm,
          nextModule_setPreviousModule hba haa]
      have hp {a : VAddr} {j : Bool} (ha : a ∈ reg j) :
          previousModule (setHeadModule (setPreviousModule mem b (previousModule mem self)) crs k b)
            a = if a = b then previousModule mem self else previousModule mem a := by
        rw [previousModule_setHeadModule k hc (h.aligned j a ha) (h.crs_ne ha).symm,
          previousModule_setPreviousModule]
      refine ⟨_, rfl, h.remove hself ?_ hsub (headModule_setHeadModule k) ?_ fun a ha => ?_⟩
      · -- the new head names the tail
        refine hlist.tail (List.cons_ne_nil b ys) (fun a ha => ?_) (fun a ha hne => ?_) ?_
        · exact (hn (hsub a ha).1).symm
        · exact ((hp (hsub a ha).1).trans (if_neg hne)).symm
        · exact (hp hb).trans (if_pos rfl)
      · rw [headModule_setHeadModule_not k hc, headModule_setPreviousModule _ hba hc (h.crs_ne hb)]
      · exact ⟨(hn ha).symm, ((hp ha).trans (if_neg (h.ne_of_mem hb ha))).symm⟩

theorem ne_head (h : Linked crs mem reg) {xs ys : List VAddr} {a : VAddr}
    (hreg : reg k = xs ++ a :: self :: ys) :
    ¬ (self = nextModule mem crs ∨ self = previousModule mem crs) := by
  have hself : self ∈ reg k := by simp [hreg]
  have hnodup := (h.list k).nodup
  rw [h.head_cases hself, h.head, hreg]
  rw [hreg] at hnodup
  cases xs with
  | nil =>
      rintro rfl
      exact (List.nodup_cons.1 hnodup).1 List.mem_cons_self
  | cons x xs =>
      rintro rfl
      exact (List.nodup_cons.1 hnodup).1 (by simp)

theorem unregister_inner {xs ys : List VAddr} {a b : VAddr} (h : Linked crs mem reg)
    (hreg : reg k = xs ++ a :: self :: b :: ys) :
    ∃ mem', unregister mem self crs = some mem' ∧
      Linked crs mem' (Function.update reg k (xs ++ a :: b :: ys)) := by
  have hlist := h.list k
  rw [hreg] at hlist
  have hc := h.crs_aligned
  have hself : self ∈ reg k := by simp [hreg]
  have ha : a ∈ reg k := by simp [hreg]
  have hb : b ∈ reg k := by simp [hreg]
  have haa := h.aligned k a ha
  have hba := h.aligned k b hb
  have hb0 : b ≠ 0 := fun h0 => hlist.null_notMem (by simp [← h0])
  have hreg' : xs ++ a :: self :: b :: ys = (xs ++ [a]) ++ self :: b :: ys := by simp
  have hnext : nextModule mem self = b := by
    rw [hreg'] at hlist
    exact hlist.next_eq
  have hprev : previousModule mem self = a := hlist.prev_eq
  have hsub (c : VAddr) (hc : c ∈ xs ++ a :: b :: ys) : c ∈ reg k ∧ c ≠ self :=
    h.of_mem_append (hreg.trans hreg') (by simpa using hc)
  rw [CROHelper.unregister, if_neg (h.ne_head hreg), hnext, if_pos hb0, hprev]
  have hn {c : VAddr} {j : Bool} (hc : c ∈ reg j) :
      nextModule (setPreviousModule (setNextModule mem a b) b a) c =
        if c = a then b else nextModule mem c := by
    rw [nextModule_setPreviousModule hba (h.aligned j c hc), nextModule_setNextModule]
  have hp {c : VAddr} {j : Bool} (hc : c ∈ reg j) :
      previousModule (setPreviousModule (setNextModule mem a b) b a) c =
        if c = b then a else previousModule mem c := by
    rw [previousModule_setPreviousModule, previousModule_setNextModule haa (h.aligned j c hc)]
  have hhead (j : Bool) : headModule (setPreviousModule (setNextModule mem a b) b a) crs j =
      headModule mem crs j := by
    rw [headModule_setPreviousModule j hba hc (h.crs_ne hb),
      headModule_setNextModule j haa hc (h.crs_ne ha)]
  refine ⟨_, rfl, h.remove hself ?_ hsub ?_ (hhead _) fun c hc => ?_⟩
  · refine hlist.unlink (fun c hc hne => ?_) ?_ (fun c hc hne => ?_) ?_
    · exact ((hn (hsub c hc).1).trans (if_neg hne)).symm
    · exact (hn ha).trans (if_pos rfl)
    · exact ((hp (hsub c hc).1).trans (if_neg hne)).symm
    · exact (hp hb).trans (if_pos rfl)
  · rw [hhead, h.head, hreg]
    cases xs
    · rfl
    · rfl
  · exact ⟨((hn hc).trans (if_neg (h.ne_of_mem ha hc))).symm,
      ((hp hc).trans (if_neg (h.ne_of_mem hb hc))).symm⟩

theorem unregister_last {xs : List VAddr} {a : VAddr} (h : Linked crs mem reg)
    (hreg : reg k = (xs ++ [a]) ++ [self]) :
    ∃ mem', unregister mem self crs = some mem' ∧
      Linked crs mem' (Function.update reg k (xs ++ [a])) := by
  have hlist := h.list k
  have hreg' : reg k = xs ++ a :: self :: [] := by rw [hreg, List.append_assoc]; rfl
  have hc := h.crs_aligned
  have hself : self ∈ reg k := by simp [hreg]
  have ha : a ∈ reg k := by simp [hreg]
  have haa := h.aligned k a ha
  have hne : xs ++ [a] ≠ [] := by simp
  have hempty : reg k ≠ [] := List.ne_nil_of_mem hself
  have hsub (c : VAddr) (hc : c ∈ xs ++ [a]) : c ∈ reg k ∧ c ≠ self :=
    h.of_mem_append hreg (by rwa [List.append_nil])
  have hhead : headModule mem crs k = (xs ++ [a]).head hne := by
    rw [h.head_eq hempty]
    simp only [hreg, List.head_append_of_ne_nil hne]
  have hhmem := List.head_mem hne
  rw [← hhead] at hhmem
  have hh := (hsub _ hhmem).1
  have hha := h.aligned k _ hh
  have htail : previousModule mem (headModule mem crs k) = self := by
    rw [h.head_eq hempty, hlist.prev_head hempty]
    simp only [hreg, List.getLast_append_singleton]
  rw [hreg] at hlist
  have hnext : nextModule mem self = 0 := hlist.next_eq
  have hprev : previousModule mem self = a := by
    rw [List.append_assoc] at hlist
    exact hlist.prev_eq
  rw [CROHelper.unregister, if_neg (h.ne_head hreg'), hnext, if_neg (not_not.2 rfl), hprev,
    h.unregisterTail_eq hself htail haa]
  have hn {c : VAddr} {j : Bool} (hc : c ∈ reg j) :
      nextModule (setPreviousModule (setNextModule mem a 0) (headModule mem crs k) a) c =
        if c = a then 0 else nextModule mem c := by
    rw [nextModule_setPreviousModule hha (h.aligned j c hc), nextModule_setNextModule]
  have hp {c : VAddr} {j : Bool} (hc : c ∈ reg j) :
      previousModule (setPreviousModule (setNextModule mem a 0) (headModule mem crs k) a) c =
        if c = headModule mem crs k then a else previousModule mem c := by
    rw [previousModule_setPreviousModule, previousModule_setNextModule haa (h.aligned j c hc)]
  have hheads (j : Bool) :
      headModule (setPreviousModule (setNextModule mem a 0) (headModule mem crs k) a) crs j =
        headModule mem crs j := by
    rw [headModule_setPreviousModule j hha hc (h.crs_ne hh),
      headModule_setNextModule j haa hc (h.crs_ne ha)]
  have hlast : (xs ++ [a]).getLast hne = a := List.getLast_append_singleton xs
  refine ⟨_, rfl, h.remove hself ?_ hsub ?_ (hheads _) fun c hc => ?_⟩
  · refine hlist.dropLast hne (fun c hc hne => ?_) ?_ (fun c hc hne => ?_) ?_
    · rw [hlast] at hne
      exact ((hn (hsub c hc).1).trans (if_neg hne)).symm
    · rw [hlast]
      exact (hn ha).trans (if_pos rfl)
    · rw [← hhead] at hne
      exact ((hp (hsub c hc).1).trans (if_neg hne)).symm
    · rw [hlast, ← hhead]
      exact (hp hh).trans (if_pos rfl)
  · rw [hheads, h.head, hreg]
    cases xs
    · rfl
    · rfl
  · exact ⟨((hn hc).trans (if_neg (h.ne_of_mem ha hc))).symm,
      ((hp hc).trans (if_neg (h.ne_of_mem hh hc))).symm⟩

theorem unregister (h : Linked crs mem reg) (hself : self ∈ reg k) :
    ∃ mem', unregister mem self crs = some mem' ∧
      Linked crs mem' (Function.update reg k ((reg k).erase self)) := by
  obtain ⟨xs, ys, hreg⟩ := List.append_of_mem hself
  have hnodup := (h.list k).nodup
  have herase : (reg k).erase self = xs ++ ys := by
    have hnot : self ∉ xs := by
      rw [hreg, List.nodup_middle, List.nodup_cons] at hnodup
      exact fun hmem => hnodup.1 (List.mem_append_left ys hmem)
    rw [hreg, List.erase_append_right _ hnot, List.erase_cons_head]
  rw [herase]
  rcases List.eq_nil_or_concat' xs with rfl | ⟨xs, a, rfl⟩
  · exact h.unregister_head hreg
  · cases ys with
    | nil =>
        rw [List.append_nil]
        exact h.unregister_last hreg
    | cons b ys =>
        rw [List.append_assoc] at hreg ⊢
        exact h.unregister_inner hreg

end Linked

/-- The calls of the lists. -/
inductive Call
  | register (self : VAddr) (autoLink : Bool)
  | unregister (self : VAddr)

/-- A call on the static module `crs`. -/
def Call.run (crs : VAddr) (mem : Memory) : Call → Option Memory
  | register self autoLink => CROHelper.register mem self crs autoLink
  | unregister self => CROHelper.unregister mem self crs

/-- What a call means for the registered modules. -/
def Call.step (reg : Registry) : Call → Registry
  | register self autoLink => Function.update reg autoLink (reg autoLink ++ [self])
  | unregister self => fun k => (reg k).erase self

/-- A module that is registered is not registered yet, and one that is
unregistered is. -/
def Call.Permitted (crs : VAddr) (reg : Registry) : Call → Prop
  | register self _ => Aligned self ∧ self ≠ 0 ∧ self ≠ crs ∧ ∀ k, self ∉ reg k
  | unregister self => ∃ k, self ∈ reg k

def runCalls (crs : VAddr) (mem : Memory) (calls : List Call) : Option Memory :=
  calls.foldlM (Call.run crs) mem

/-- The registered modules after some calls. -/
def replay (calls : List Call) : Registry := calls.foldl Call.step fun _ => []

/-- Every call is permitted where it is made. -/
def AllPermitted (crs : VAddr) : Registry → List Call → Prop
  | _, [] => True
  | reg, c :: calls => c.Permitted crs reg ∧ AllPermitted crs (c.step reg) calls

theorem Linked.call {crs : VAddr} {mem : Memory} {reg : Registry} (h : Linked crs mem reg)
    (c : Call) (hc : c.Permitted crs reg) :
    ∃ mem', c.run crs mem = some mem' ∧ Linked crs mem' (c.step reg) := by
  cases c with
  | register self autoLink =>
      obtain ⟨haligned, hnull, hcrs, hnew⟩ := hc
      exact h.register haligned hnull hcrs hnew autoLink
  | unregister self =>
      obtain ⟨k, hself⟩ := hc
      have hstep : (Call.unregister self).step reg =
          Function.update reg k ((reg k).erase self) := by
        funext j
        rcases Bool.eq_or_eq_not j k with rfl | rfl
        · exact (Function.update_self j ((reg j).erase self) reg).symm
        · have hnot : self ∉ reg !k := fun hmem => h.disjoint k hself hmem
          exact (List.erase_of_not_mem hnot).trans
            (Function.update_of_ne (Bool.not_ne_self k) ((reg k).erase self) reg).symm
      rw [hstep]
      exact h.unregister hself

theorem Linked.runCalls {crs : VAddr} {mem : Memory} {reg : Registry} (h : Linked crs mem reg)
    {calls : List Call} (hcalls : AllPermitted crs reg calls) :
    ∃ mem', runCalls crs mem calls = some mem' ∧ Linked crs mem' (calls.foldl Call.step reg) := by
  induction calls generalizing mem reg with
  | nil => exact ⟨mem, rfl, h⟩
  | cons c calls ih =>
      obtain ⟨mem', hrun, h'⟩ := h.call c hcalls.1
      obtain ⟨final, hfinal, hlinked⟩ := ih h' hcalls.2
      refine ⟨final, ?_, hlinked⟩
      rw [Ldr.runCalls, List.foldlM_cons, hrun]
      exact hfinal

/-- What is found by following the links of one kind. -/
structure Shows (crs : VAddr) (mem : Memory) (k : Bool) (l : List VAddr) : Prop where
  visits : ∀ n, l.length < n → walk (nextModule mem) 0 n (headModule mem crs k) = some l
  prev_head : ∀ hne : l ≠ [], previousModule mem (l.head hne) = l.getLast hne
  prev_eq : ∀ xs a b ys, l = xs ++ a :: b :: ys → previousModule mem b = a

theorem Linked.shows {crs : VAddr} {mem : Memory} {reg : Registry} (h : Linked crs mem reg)
    (k : Bool) : Shows crs mem k (reg k) where
  visits n hn := by
    rw [h.head]
    exact (h.list k).forward.walk_eq (h.list k).null_notMem hn
  prev_head := (h.list k).prev_head
  prev_eq xs a b ys hl := by
    have hlist := h.list k
    rw [hl] at hlist
    exact hlist.prev_eq

/-- After `InitCRS`, no sequence of calls reaches an assertion, and both lists
hold the registered modules in the order of registration. -/
theorem moduleLists {crs : VAddr} (hcrs : Aligned crs) (mem : Memory) (calls : List Call)
    (hcalls : AllPermitted crs (fun _ => []) calls) :
    ∃ mem', runCalls crs (initCRS mem crs) calls = some mem' ∧
      ∀ k, Shows crs mem' k (replay calls k) := by
  obtain ⟨mem', hrun, h⟩ := (Linked.initCRS hcrs mem).runCalls hcalls
  exact ⟨mem', hrun, h.shows⟩

/-- Two modules of one kind and one of the other, of which the first is removed. -/
theorem moduleLists_three :
    AllPermitted 0x1000 (fun _ => []) [.register 0x2000 true, .register 0x3000 true,
      .register 0x4000 false, .unregister 0x2000] ∧
    ∃ mem', runCalls 0x1000 (initCRS (fun _ => 0) 0x1000) [.register 0x2000 true,
        .register 0x3000 true, .register 0x4000 false, .unregister 0x2000] = some mem' ∧
      ∀ k, Shows 0x1000 mem' k (replay [.register 0x2000 true, .register 0x3000 true,
        .register 0x4000 false, .unregister 0x2000] k) := by
  have hcalls : AllPermitted 0x1000 (fun _ => []) [.register 0x2000 true, .register 0x3000 true,
      .register 0x4000 false, .unregister 0x2000] := by
    refine ⟨⟨?_, ?_, ?_, ?_⟩, ⟨?_, ?_, ?_, ?_⟩, ⟨?_, ?_, ?_, ?_⟩, ⟨true, ?_⟩, trivial⟩
    all_goals first | decide | exact rfl
  exact ⟨hcalls, moduleLists (by decide : (0x1000 : UInt32).toNat % 0x1000 = 0) _ _ hcalls⟩

end Cytrus.Ldr
