import Mathlib.Tactic

/-!
# Queues of threads by priority

`ThreadQueueList` has one queue for each priority level. The levels that were
ever used are linked in ascending order, so that a search visits them only.
A level has to be linked before something is pushed to it, or it is never
found again.

## Implementation notes

A link is `none` for a level that was never used (the unlinked tag), `some none`
for the null pointer. A search that follows an unlinked tag or dereferences a
null pointer has no result; neither happens in a well-formed list.
-/

namespace Cytrus.Common

open Function (update_of_ne update_self)

structure ThreadQueueList (α : Type) where
  first : Option Nat
  nextNonempty : Nat → Option (Option Nat)
  data : Nat → List α

namespace ThreadQueueList

variable {α : Type} {q : ThreadQueueList α} {n p : Nat}

def empty : ThreadQueueList α := ⟨none, fun _ => none, fun _ => []⟩

/-- The nearest level below that is linked. -/
def linkedBelow (q : ThreadQueueList α) : Nat → Option Nat
  | 0 => none
  | i + 1 => if (q.nextNonempty i).isSome then some i else q.linkedBelow i

def link (q : ThreadQueueList α) (priority : Nat) : ThreadQueueList α :=
  match q.linkedBelow priority with
  | some i =>
      { q with
        nextNonempty :=
          Function.update (Function.update q.nextNonempty priority (q.nextNonempty i)) i
            (some (some priority)) }
  | none =>
      { q with
        nextNonempty := Function.update q.nextNonempty priority (some q.first)
        first := some priority }

def prepare (q : ThreadQueueList α) (priority : Nat) : ThreadQueueList α :=
  if q.nextNonempty priority = none then q.link priority else q

def setLevel (q : ThreadQueueList α) (priority : Nat) (threads : List α) : ThreadQueueList α :=
  { q with data := Function.update q.data priority threads }

def pushFront (q : ThreadQueueList α) (priority : Nat) (thread : α) : ThreadQueueList α :=
  q.setLevel priority (thread :: q.data priority)

def pushBack (q : ThreadQueueList α) (priority : Nat) (thread : α) : ThreadQueueList α :=
  q.setLevel priority (q.data priority ++ [thread])

def remove [DecidableEq α] (q : ThreadQueueList α) (priority : Nat) (thread : α) :
    ThreadQueueList α :=
  q.setLevel priority ((q.data priority).filter (· ≠ thread))

def move [DecidableEq α] (q : ThreadQueueList α) (thread : α) (oldPriority newPriority : Nat) :
    ThreadQueueList α :=
  ((q.remove oldPriority thread).prepare newPriority).pushBack newPriority thread

/-- The first level that is not empty, from a link on. -/
def firstLevel (q : ThreadQueueList α) : Nat → Option Nat → Option (Option Nat)
  | 0, _ => none
  | _ + 1, none => some none
  | fuel + 1, some cur =>
      if q.data cur = [] then (q.nextNonempty cur).bind (q.firstLevel fuel) else some (some cur)

/-- The first level below `priority` that is not empty. A null pointer compares below every
level, and is dereferenced. -/
def betterLevel (q : ThreadQueueList α) (priority : Nat) : Nat → Option Nat → Option (Option Nat)
  | 0, _ => none
  | _ + 1, none => none
  | fuel + 1, some cur =>
      if cur < priority then
        if q.data cur = [] then (q.nextNonempty cur).bind (q.betterLevel priority fuel)
        else some (some cur)
      else some none

/-- Take the first thread of the level that a search has found. -/
def popLevel (q : ThreadQueueList α) :
    Option (Option Nat) → Option (Option α × ThreadQueueList α)
  | none => none
  | some none => some (none, q)
  | some (some level) =>
      match q.data level with
      | [] => none
      | thread :: rest => some (some thread, q.setLevel level rest)

def getFirst (q : ThreadQueueList α) (n : Nat) : Option (Option α) :=
  (q.popLevel (q.firstLevel (n + 1) q.first)).map Prod.fst

/-- `n` is the number of levels. -/
def popFirst (n : Nat) (q : ThreadQueueList α) : Option (Option α × ThreadQueueList α) :=
  q.popLevel (q.firstLevel (n + 1) q.first)

def popFirstBetter (n priority : Nat) (q : ThreadQueueList α) :
    Option (Option α × ThreadQueueList α) :=
  q.popLevel (q.betterLevel priority (n + 1) q.first)

/-! ## Chains of levels -/

/-- The links from a place on visit a path and end at a null pointer. -/
def Chain (nextNonempty : Nat → Option (Option Nat)) : Option Nat → List Nat → Prop
  | start, [] => start = none
  | start, level :: rest => start = some level ∧
      ∃ after, nextNonempty level = some after ∧ Chain nextNonempty after rest

variable {nextNonempty : Nat → Option (Option Nat)} {start : Option Nat}
  {path low high : List Nat} {level : Nat}

theorem Chain.update (h : Chain nextNonempty start path) (hlevel : level ∉ path)
    (value : Option (Option Nat)) :
    Chain (Function.update nextNonempty level value) start path := by
  induction path generalizing start with
  | nil => exact h
  | cons a rest ih =>
      obtain ⟨hstart, after, hafter, hrest⟩ := h
      rw [List.mem_cons, not_or] at hlevel
      exact ⟨hstart, after, by rw [update_of_ne (Ne.symm hlevel.1), hafter],
        ih hrest hlevel.2⟩

theorem Chain.insert (h : Chain nextNonempty start (low ++ level :: high)) (hp : p ∉ low)
    (hlow : level ∉ low) (hhigh : level ∉ high) (hp' : p ∉ high) (hne : p ≠ level) :
    Chain (Function.update (Function.update nextNonempty p (nextNonempty level)) level
      (some (some p))) start (low ++ level :: p :: high) := by
  induction low generalizing start with
  | nil =>
      obtain ⟨hstart, after, hafter, hrest⟩ := h
      refine ⟨hstart, some p, by simp, rfl, after, ?_, (hrest.update hp' _).update hhigh _⟩
      rw [update_of_ne hne, update_self, hafter]
  | cons a low ih =>
      obtain ⟨hstart, after, hafter, hrest⟩ := h
      rw [List.mem_cons, not_or] at hp hlow
      refine ⟨hstart, after, ?_, ih hrest hp.2 hlow.2⟩
      rw [update_of_ne (Ne.symm hlow.1), update_of_ne (Ne.symm hp.1), hafter]

/-- The levels that are linked are one ascending chain. -/
structure Linked (q : ThreadQueueList α) (n : Nat) (path : List Nat) : Prop where
  chain : Chain q.nextNonempty q.first path
  sorted : path.Pairwise (· < ·)
  mem_iff : ∀ level, level ∈ path ↔ (q.nextNonempty level).isSome = true
  lt : ∀ level ∈ path, level < n

/-- A list that was built from the empty one, with `n` levels. -/
def WellFormed (q : ThreadQueueList α) (n : Nat) : Prop := ∃ path, Linked q n path

/-- A level that can be pushed to. -/
def Prepared (q : ThreadQueueList α) (level : Nat) : Prop :=
  (q.nextNonempty level).isSome = true

theorem wellFormed_empty (n : Nat) : (empty : ThreadQueueList α).WellFormed n :=
  ⟨[], rfl, List.Pairwise.nil, by simp [empty], by simp⟩

theorem linkedBelow_eq_some {i : Nat} (h : q.linkedBelow p = some i) :
    i < p ∧ (q.nextNonempty i).isSome = true ∧
      ∀ j, i < j → j < p → (q.nextNonempty j).isSome = false := by
  induction p with
  | zero => cases h
  | succ p ih =>
      rw [linkedBelow] at h
      by_cases hp : (q.nextNonempty p).isSome = true
      · rw [if_pos hp, Option.some.injEq] at h
        subst h
        exact ⟨by omega, hp, fun j h1 h2 => by omega⟩
      · rw [if_neg hp] at h
        obtain ⟨hi, hlinked, hbetween⟩ := ih h
        refine ⟨by omega, hlinked, fun j h1 h2 => ?_⟩
        by_cases hj : j = p
        · rw [hj]
          simpa using hp
        · exact hbetween j h1 (by omega)

theorem linkedBelow_eq_none (h : q.linkedBelow p = none) :
    ∀ j < p, (q.nextNonempty j).isSome = false := by
  induction p with
  | zero => exact fun j hj => absurd hj (by omega)
  | succ p ih =>
      rw [linkedBelow] at h
      by_cases hp : (q.nextNonempty p).isSome = true
      · rw [if_pos hp] at h
        cases h
      · rw [if_neg hp] at h
        intro j hj
        by_cases hjp : j = p
        · rw [hjp]
          simpa using hp
        · exact ih h j (by omega)

theorem linked_cons (h : Linked q n path) (hp : q.nextNonempty p = none) (hlt : p < n)
    (hbelow : q.linkedBelow p = none) : Linked (q.link p) n (p :: path) := by
  have hnot : p ∉ path := by
    rw [h.mem_iff, hp]
    simp
  unfold link
  rw [hbelow]
  refine ⟨⟨rfl, q.first, by simp, h.chain.update hnot _⟩, ?_, fun level => ?_, ?_⟩
  · refine List.pairwise_cons.mpr ⟨fun level hlevel => ?_, h.sorted⟩
    have hlinked := (h.mem_iff level).mp hlevel
    by_contra hle
    have hne : level ≠ p := fun heq => hnot (heq ▸ hlevel)
    rw [linkedBelow_eq_none hbelow level (by omega)] at hlinked
    cases hlinked
  · by_cases hlevel : level = p
    · simp [hlevel]
    · simp [hlevel, h.mem_iff]
  · exact fun level hlevel => (List.mem_cons.mp hlevel).elim (· ▸ hlt) (h.lt level)

theorem linked_insert {i : Nat} (h : Linked q n (low ++ i :: high)) (hp : q.nextNonempty p = none)
    (hlt : p < n) (hbelow : q.linkedBelow p = some i) :
    Linked (q.link p) n (low ++ i :: p :: high) := by
  obtain ⟨hip, hi, hbetween⟩ := linkedBelow_eq_some hbelow
  have hnot : p ∉ low ++ i :: high := by
    rw [h.mem_iff, hp]
    simp
  simp only [List.mem_append, List.mem_cons, not_or] at hnot
  obtain ⟨hsorted_low, hsorted_high, hcross⟩ := List.pairwise_append.mp h.sorted
  rw [List.pairwise_cons] at hsorted_high
  have hlow_lt : ∀ level ∈ low, level < i := fun level hlevel => hcross level hlevel i (by simp)
  have hhigh_gt : ∀ level ∈ high, p < level := by
    intro level hlevel
    have hlinked := (h.mem_iff level).mp (by simp [hlevel])
    have hne : level ≠ p := fun heq => hnot.2.2 (heq ▸ hlevel)
    by_contra hle
    rw [hbetween level (hsorted_high.1 level hlevel) (by omega)] at hlinked
    cases hlinked
  unfold link
  rw [hbelow]
  refine ⟨?_, ?_, fun level => ?_, ?_⟩
  · refine h.chain.insert hnot.1 (fun hmem => ?_) (fun hmem => ?_) hnot.2.2 hnot.2.1
    · exact absurd (hlow_lt i hmem) (lt_irrefl i)
    · exact absurd (hsorted_high.1 i hmem) (lt_irrefl i)
  · refine List.pairwise_append.mpr ⟨hsorted_low, ?_, fun a ha b hb => ?_⟩
    · refine List.pairwise_cons.mpr ⟨fun b hb => ?_, List.pairwise_cons.mpr
        ⟨hhigh_gt, hsorted_high.2⟩⟩
      rcases List.mem_cons.mp hb with rfl | hb
      · exact hip
      · exact hsorted_high.1 b hb
    · have hai := hlow_lt a ha
      rcases List.mem_cons.mp hb with rfl | hb
      · exact hai
      · rcases List.mem_cons.mp hb with rfl | hb
        · omega
        · exact hai.trans (hsorted_high.1 b hb)
  · by_cases hlevel : level = i
    · simp [hlevel]
    · by_cases hlevel' : level = p
      · simp [hlevel', update_of_ne hip.ne', hi]
      · have hmem := h.mem_iff level
        simp only [List.mem_append, List.mem_cons, hlevel, hlevel', false_or,
          update_of_ne hlevel, update_of_ne hlevel'] at hmem ⊢
        exact hmem
  · intro level hlevel
    by_cases hlevel' : level = p
    · exact hlevel' ▸ hlt
    · refine h.lt level ?_
      simp only [List.mem_append, List.mem_cons, hlevel', false_or] at hlevel ⊢
      exact hlevel

theorem WellFormed.link (h : q.WellFormed n) (hp : q.nextNonempty p = none) (hlt : p < n) :
    (q.link p).WellFormed n := by
  obtain ⟨path, hpath⟩ := h
  cases hbelow : q.linkedBelow p with
  | none => exact ⟨_, linked_cons hpath hp hlt hbelow⟩
  | some i =>
      have hmem := (hpath.mem_iff i).mpr (linkedBelow_eq_some hbelow).2.1
      obtain ⟨low, high, rfl⟩ := List.append_of_mem hmem
      exact ⟨_, linked_insert hpath hp hlt hbelow⟩

/-! ## The operations on well-formed lists -/

@[simp] theorem link_data (q : ThreadQueueList α) (priority : Nat) :
    (q.link priority).data = q.data := by
  unfold link
  split <;> rfl

@[simp] theorem prepare_data (q : ThreadQueueList α) (priority : Nat) :
    (q.prepare priority).data = q.data := by
  unfold prepare
  split
  · exact q.link_data priority
  · rfl

@[simp] theorem setLevel_data (q : ThreadQueueList α) (priority : Nat) (l : List α) :
    (q.setLevel priority l).data = Function.update q.data priority l := rfl

theorem WellFormed.setLevel (h : q.WellFormed n) (priority : Nat) (l : List α) :
    (q.setLevel priority l).WellFormed n := by
  obtain ⟨path, hpath⟩ := h
  exact ⟨path, hpath.chain, hpath.sorted, hpath.mem_iff, hpath.lt⟩

theorem WellFormed.prepare (h : q.WellFormed n) (hp : p < n) : (q.prepare p).WellFormed n := by
  unfold ThreadQueueList.prepare
  split
  next hnone => exact h.link hnone hp
  next => exact h

theorem Prepared.link (h : q.Prepared level) (hp : q.nextNonempty p = none) :
    (q.link p).Prepared level := by
  unfold Prepared at h
  have hne : level ≠ p := by
    rintro rfl
    simp [hp] at h
  unfold Prepared ThreadQueueList.link
  split
  next i _ =>
    by_cases hi : level = i
    · simp [hi]
    · simpa [update_of_ne hi, update_of_ne hne] using h
  next => simpa [update_of_ne hne] using h

theorem Prepared.prepare (h : q.Prepared level) (p : Nat) : (q.prepare p).Prepared level := by
  unfold ThreadQueueList.prepare
  split
  next hnone => exact h.link hnone
  next => exact h

theorem prepared_prepare (q : ThreadQueueList α) (p : Nat) : (q.prepare p).Prepared p := by
  unfold ThreadQueueList.prepare
  split
  next hnone =>
    unfold Prepared ThreadQueueList.link
    split
    next i hi =>
      have hne : p ≠ i := (linkedBelow_eq_some hi).1.ne'
      simpa [update_of_ne hne] using (linkedBelow_eq_some hi).2.1
    next => simp
  next hsome => exact Option.isSome_iff_ne_none.mpr hsome

/-! ## Searching -/

theorem firstLevel_eq : ∀ {path : List Nat} {start : Option Nat} {fuel : Nat},
    Chain q.nextNonempty start path → path.length < fuel →
      q.firstLevel fuel start = some (path.find? fun level => q.data level ≠ []) := by
  intro path
  induction path with
  | nil =>
      intro start fuel h hfuel
      obtain ⟨fuel, rfl⟩ := Nat.exists_eq_succ_of_ne_zero (Nat.ne_of_gt hfuel)
      rw [show start = none from h]
      rfl
  | cons level rest ih =>
      intro start fuel h hfuel
      obtain ⟨fuel, rfl⟩ := Nat.exists_eq_succ_of_ne_zero (by omega : fuel ≠ 0)
      obtain ⟨rfl, after, hafter, hrest⟩ := h
      rw [firstLevel, hafter]
      by_cases hempty : q.data level = []
      · rw [if_pos hempty, Option.bind_some, ih hrest (by simpa using hfuel)]
        simp [hempty]
      · rw [if_neg hempty]
        simp [hempty]

theorem betterLevel_eq : ∀ {path : List Nat} {start : Option Nat} {fuel : Nat},
    Chain q.nextNonempty start path → path.length < fuel → path.Pairwise (· < ·) → p ∈ path →
      q.betterLevel p fuel start =
        some (path.find? fun level => level < p ∧ q.data level ≠ []) := by
  intro path
  induction path with
  | nil => exact fun _ _ _ hp => absurd hp (by simp)
  | cons level rest ih =>
      intro start fuel h hfuel hsorted hp
      obtain ⟨fuel, rfl⟩ := Nat.exists_eq_succ_of_ne_zero (by omega : fuel ≠ 0)
      obtain ⟨rfl, after, hafter, hrest⟩ := h
      rw [List.pairwise_cons] at hsorted
      rw [betterLevel, hafter]
      by_cases hlt : level < p
      · rw [if_pos hlt]
        have hp' : p ∈ rest := (List.mem_cons.mp hp).resolve_left hlt.ne'
        by_cases hempty : q.data level = []
        · rw [if_pos hempty, Option.bind_some, ih hrest (by simpa using hfuel) hsorted.2 hp']
          simp [hempty]
        · rw [if_neg hempty]
          simp [hempty, hlt]
      · rw [if_neg hlt]
        have hnone : (level :: rest).find? (fun level => level < p ∧ q.data level ≠ []) =
            none := by
          rw [List.find?_eq_none]
          intro l hl hfound
          have hle : level ≤ l := (List.mem_cons.mp hl).elim (· ▸ le_rfl)
            fun hl => (hsorted.1 l hl).le
          have hlt' := (of_decide_eq_true hfound).1
          omega
        rw [hnone]

theorem Linked.length_le (h : Linked q n path) : path.length ≤ n := by
  have hsub : path ⊆ List.range n := fun level hlevel => List.mem_range.mpr (h.lt level hlevel)
  have hle := (List.subperm_of_subset (h.sorted.imp ne_of_lt) hsub).length_le
  rwa [List.length_range] at hle

/-- The front of the first level that a search looks for. -/
def Front (q : ThreadQueueList α) (bound : Nat → Prop) (level : Nat) (thread : α)
    (rest : List α) : Prop :=
  bound level ∧ q.data level = thread :: rest ∧ ∀ l, bound l → l < level → q.data l = []

/-- What popping returns, if it looks at the levels that satisfy `bound`. -/
def Pops (q : ThreadQueueList α) (bound : Nat → Prop)
    (result : Option (Option α × ThreadQueueList α)) : Prop :=
  (result = some (none, q) ∧ ∀ l, bound l → q.data l = []) ∨
    ∃ level thread rest, q.Front bound level thread rest ∧
      result = some (some thread, q.setLevel level rest)

/-- Nothing was pushed to a level that is not linked. -/
def Reaches (q : ThreadQueueList α) : Prop := ∀ level, q.data level ≠ [] → q.Prepared level

theorem pops_of_find (bound : Nat → Prop) [DecidablePred bound] (h : Linked q n path)
    (hq : q.Reaches) : q.Pops bound (q.popLevel
      (some (path.find? fun level => bound level ∧ q.data level ≠ []))) := by
  cases hfind : path.find? (fun level => bound level ∧ q.data level ≠ []) with
  | none =>
      refine .inl ⟨rfl, fun l hl => ?_⟩
      by_contra hne
      rw [List.find?_eq_none] at hfind
      exact hfind l ((h.mem_iff l).mpr (hq l hne)) (by simp [hl, hne])
  | some level =>
      have hlevel := List.find?_some hfind
      rw [decide_eq_true_eq] at hlevel
      obtain ⟨thread, rest, hdata⟩ := List.exists_cons_of_ne_nil hlevel.2
      refine .inr ⟨level, thread, rest, ⟨hlevel.1, hdata, fun l hl hlt => ?_⟩, ?_⟩
      · by_contra hne
        obtain ⟨-, before, after, hpath, hbefore⟩ := List.find?_eq_some_iff_append.mp hfind
        have hl' := (h.mem_iff l).mpr (hq l hne)
        have hsorted := h.sorted
        rw [hpath] at hl' hsorted
        rcases List.mem_append.mp hl' with hl' | hl'
        · have := hbefore l hl'
          simp [hl, hne] at this
        · have hle : level ≤ l := by
            rcases List.mem_cons.mp hl' with rfl | hl'
            · exact le_rfl
            · exact ((List.pairwise_cons.mp (List.pairwise_append.mp hsorted).2.1).1 l hl').le
          omega
      · rw [popLevel, hdata]

theorem WellFormed.popFirst (h : q.WellFormed n) (hq : q.Reaches) :
    q.Pops (fun _ => True) (q.popFirst n) := by
  obtain ⟨path, hpath⟩ := h
  have hpops := pops_of_find (fun _ => True) hpath hq
  unfold ThreadQueueList.popFirst
  rw [firstLevel_eq hpath.chain (Nat.lt_succ_of_le hpath.length_le)]
  simpa using hpops

theorem WellFormed.popFirstBetter (h : q.WellFormed n) (hq : q.Reaches) (hp : q.Prepared p) :
    q.Pops (· < p) (q.popFirstBetter n p) := by
  obtain ⟨path, hpath⟩ := h
  have hpops := pops_of_find (· < p) hpath hq
  unfold ThreadQueueList.popFirstBetter
  rwa [betterLevel_eq hpath.chain (Nat.lt_succ_of_le hpath.length_le) hpath.sorted
    ((hpath.mem_iff p).mpr hp)]

/-! ## The place of each thread -/

/-- A list holds some threads, each at the level `place` says, and no others. -/
structure Holds (q : ThreadQueueList α) (n : Nat) (place : α → Option Nat) : Prop where
  wellFormed : q.WellFormed n
  nodup : ∀ level, (q.data level).Nodup
  mem_iff : ∀ level a, a ∈ q.data level ↔ place a = some level
  prepared : ∀ level a, place a = some level → q.Prepared level

variable {place : α → Option Nat} {a : α}

theorem holds_empty (n : Nat) : (empty : ThreadQueueList α).Holds n fun _ => none where
  wellFormed := wellFormed_empty n
  nodup _ := List.nodup_nil
  mem_iff level a := by simp [empty]
  prepared _ _ h := by cases h

theorem Holds.congr {place' : α → Option Nat} (h : q.Holds n place)
    (heq : ∀ a, place' a = place a) : q.Holds n place' :=
  funext heq ▸ h

theorem Holds.reaches (h : q.Holds n place) : q.Reaches := by
  intro level hlevel
  obtain ⟨a, ha⟩ := List.exists_mem_of_ne_nil _ hlevel
  exact h.prepared level a ((h.mem_iff level a).mp ha)

theorem Holds.prepare (h : q.Holds n place) (hp : p < n) : (q.prepare p).Holds n place where
  wellFormed := h.wellFormed.prepare hp
  nodup level := by
    rw [prepare_data]
    exact h.nodup level
  mem_iff level a := by
    rw [prepare_data]
    exact h.mem_iff level a
  prepared level a ha := (h.prepared level a ha).prepare p

section Update

variable [DecidableEq α]

theorem Holds.insert (h : q.Holds n place) (ha : place a = none) (hp : q.Prepared p)
    {threads : List α} (hthreads : threads.Perm (a :: q.data p)) :
    (q.setLevel p threads).Holds n (Function.update place a (some p)) where
  wellFormed := h.wellFormed.setLevel p threads
  nodup level := by
    have hnot : a ∉ q.data p := fun hmem => by
      rw [h.mem_iff, ha] at hmem
      cases hmem
    by_cases hlevel : level = p
    · subst hlevel
      rw [setLevel_data, update_self]
      exact hthreads.nodup_iff.mpr (List.nodup_cons.mpr ⟨hnot, h.nodup level⟩)
    · rw [setLevel_data, update_of_ne hlevel]
      exact h.nodup level
  mem_iff level b := by
    have hmem := h.mem_iff level b
    by_cases hlevel : level = p
    · subst hlevel
      rw [setLevel_data, update_self, hthreads.mem_iff, List.mem_cons]
      by_cases hb : b = a
      · simp [hb]
      · simp [hb, hmem]
    · rw [setLevel_data, update_of_ne hlevel]
      by_cases hb : b = a
      · subst hb
        simp [hmem, ha, Ne.symm hlevel]
      · simp [hb, hmem]
  prepared level b hb := by
    by_cases hba : b = a
    · subst hba
      rw [update_self, Option.some.injEq] at hb
      exact hb ▸ hp
    · rw [update_of_ne hba] at hb
      exact h.prepared level b hb

theorem Holds.pushBack (h : q.Holds n place) (ha : place a = none) (hp : q.Prepared p) :
    (q.pushBack p a).Holds n (Function.update place a (some p)) :=
  h.insert ha hp (List.perm_append_singleton a (q.data p))

theorem Holds.pushFront (h : q.Holds n place) (ha : place a = none) (hp : q.Prepared p) :
    (q.pushFront p a).Holds n (Function.update place a (some p)) :=
  h.insert ha hp (.refl _)

theorem Holds.delete (h : q.Holds n place) {threads : List α} (hthreads : threads.Nodup)
    (hmem : ∀ b, b ∈ threads ↔ b ∈ q.data p ∧ b ≠ a)
    (ha : ∀ level, place a = some level → level = p) :
    (q.setLevel p threads).Holds n (Function.update place a none) where
  wellFormed := h.wellFormed.setLevel p threads
  nodup level := by
    by_cases hlevel : level = p
    · subst hlevel
      rwa [setLevel_data, update_self]
    · rw [setLevel_data, update_of_ne hlevel]
      exact h.nodup level
  mem_iff level b := by
    have hold := h.mem_iff level b
    by_cases hlevel : level = p
    · subst hlevel
      rw [setLevel_data, update_self, hmem]
      by_cases hb : b = a
      · simp [hb]
      · simp [hb, hold]
    · rw [setLevel_data, update_of_ne hlevel]
      by_cases hb : b = a
      · subst hb
        rw [hold, update_self]
        constructor
        · exact fun hplace => absurd (ha level hplace) hlevel
        · exact fun hnone => by cases hnone
      · rw [update_of_ne hb, hold]
  prepared level b hb := by
    by_cases hba : b = a
    · subst hba
      rw [update_self] at hb
      cases hb
    · rw [update_of_ne hba] at hb
      exact h.prepared level b hb

theorem Holds.remove (h : q.Holds n place) (ha : ∀ level, place a = some level → level = p) :
    (q.remove p a).Holds n (Function.update place a none) :=
  h.delete ((h.nodup p).filter _) (fun b => by simp) ha

theorem Holds.move {p' : Nat} (h : q.Holds n place) (ha : place a = some p) (hp : p' < n) :
    (q.move a p p').Holds n (Function.update place a (some p')) := by
  have hremove := (h.remove (a := a) (p := p) fun level hlevel => by
    rw [ha, Option.some.injEq] at hlevel
    exact hlevel.symm).prepare hp
  have hpush := hremove.pushBack (update_self ..) (prepared_prepare _ p')
  rwa [Function.update_idem] at hpush

theorem Prepared.move (h : q.Prepared level) (a : α) (p p' : Nat) :
    (q.move a p p').Prepared level :=
  Prepared.prepare (q := q.remove p a) h p'

theorem prepared_move (q : ThreadQueueList α) (a : α) (p p' : Nat) : (q.move a p p').Prepared p' :=
  prepared_prepare (q.remove p a) p'

theorem Holds.pops {bound : Nat → Prop} {result : Option (Option α × ThreadQueueList α)}
    (h : q.Holds n place) (hpops : q.Pops bound result) :
    (result = some (none, q) ∧ ∀ a level, place a = some level → ¬ bound level) ∨
      ∃ a level q', result = some (some a, q') ∧ bound level ∧ place a = some level ∧
        (∀ b l, place b = some l → bound l → level ≤ l) ∧
        q'.Holds n (Function.update place a none) ∧ q'.nextNonempty = q.nextNonempty := by
  rcases hpops with ⟨hresult, hempty⟩ | ⟨level, a, rest, ⟨hbound, hdata, hfirst⟩, hresult⟩
  · refine .inl ⟨hresult, fun a level ha hlevel => ?_⟩
    have hmem := (h.mem_iff level a).mpr ha
    rw [hempty level hlevel] at hmem
    cases hmem
  · have hplace : place a = some level := (h.mem_iff level a).mp (by simp [hdata])
    have hnodup := h.nodup level
    rw [hdata, List.nodup_cons] at hnodup
    refine .inr ⟨a, level, _, hresult, hbound, hplace, fun b l hb hl => ?_, ?_, rfl⟩
    · by_contra hlt
      have hmem := (h.mem_iff l b).mpr hb
      rw [hfirst l hl (by omega)] at hmem
      cases hmem
    · apply h.delete hnodup.2
      · intro b
        rw [hdata, List.mem_cons]
        constructor
        · exact fun hb => ⟨.inr hb, fun heq => hnodup.1 (heq ▸ hb)⟩
        · rintro ⟨rfl | hb, hne⟩
          · exact absurd rfl hne
          · exact hb
      · intro l hl
        rw [hplace, Option.some.injEq] at hl
        exact hl.symm

end Update

end ThreadQueueList

end Cytrus.Common
