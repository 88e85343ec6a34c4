import Cytrus.Core.EventDispatch

/-!
# The order in which events are dispatched

An event is dispatched at most once and not before its time. The events of one
`Advance` come in the order of the heap, as long as its callbacks schedule
nothing before the current time. The sum of ticks and delay must not overflow
for that.
-/

namespace Cytrus.Core

open Support
open Timing (on_self on_of_ne)

variable {ι κ : Type}

/-! ## At most once -/

/-- The numbers of the events dispatched so far. -/
def TimingState.ids (s : TimingState ι κ) : List Nat := s.dispatched.map fun d => d.event.id

/-- Every number belongs to one event, which is dispatched or held by one timer. -/
structure Once (s : TimingState ι κ) : Prop where
  nodup : s.ids.Nodup
  old : ∀ x ∈ s.ids, x < s.nextId
  pendingNodup : ∀ i, (s.timing.timers i).pending.Nodup
  pendingOld : ∀ i, ∀ x ∈ (s.timing.timers i).pending, x < s.nextId
  apart : ∀ i, ∀ x ∈ (s.timing.timers i).pending, x ∉ s.ids
  timersApart : ∀ i j, i ≠ j → ∀ x ∈ (s.timing.timers i).pending,
    x ∉ (s.timing.timers j).pending

section AtMostOnce

variable [DecidableEq ι] [DecidableEq κ] {s t : TimingState ι κ}

omit [DecidableEq ι] [DecidableEq κ] in
theorem Once.shrink (h : Once s) (hids : t.ids = s.ids) (hid : s.nextId ≤ t.nextId)
    (hpending : ∀ i, (t.timing.timers i).pending.Subperm (s.timing.timers i).pending) :
    Once t := by
  constructor
  · rw [hids]
    exact h.nodup
  · rw [hids]
    exact fun x hx => (h.old x hx).trans_le hid
  · intro i
    obtain ⟨l, hperm, hsub⟩ := hpending i
    exact hperm.nodup_iff.mp (hsub.nodup (h.pendingNodup i))
  · exact fun i x hx => (h.pendingOld i x ((hpending i).subset hx)).trans_le hid
  · rw [hids]
    exact fun i x hx => h.apart i x ((hpending i).subset hx)
  · exact fun i j hij x hx hx' =>
      h.timersApart i j hij x ((hpending i).subset hx) ((hpending j).subset hx')

theorem Once.schedule (h : Once s) {c : Call ι κ} {i : ι} {e : Event κ}
    (hc : c.scheduled s.nextId s.timing = some (i, e)) :
    Once { s with timing := c.run s.nextId s.timing, nextId := s.nextId + 1 } := by
  obtain ⟨hid, hself, hother⟩ := Call.run_of_some hc
  have hmem : ∀ j x, x ∈ ((c.run s.nextId s.timing).timers j).pending →
      x ∈ (s.timing.timers j).pending ∨ j = i ∧ x = s.nextId := by
    intro j x hx
    by_cases hj : j = i
    · rw [hj] at hx ⊢
      rcases List.mem_cons.mp (hself.pending.mem_iff.mp hx) with hnew | hold
      · exact .inr ⟨rfl, hnew.trans hid⟩
      · exact .inl hold
    · rw [hother j hj] at hx
      exact .inl hx
  constructor
  · exact h.nodup
  · exact fun x hx => (h.old x hx).trans (Nat.lt_succ_self _)
  · intro j
    by_cases hj : j = i
    · rw [hj]
      refine hself.pending.nodup_iff.mpr (List.nodup_cons.mpr ⟨fun hx => ?_, h.pendingNodup i⟩)
      exact absurd (h.pendingOld i _ hx) (by omega)
    · exact hother j hj ▸ h.pendingNodup j
  · intro j x hx
    rcases hmem j x hx with hold | ⟨-, rfl⟩
    · exact (h.pendingOld j x hold).trans (Nat.lt_succ_self _)
    · exact Nat.lt_succ_self _
  · intro j x hx hdone
    rcases hmem j x hx with hold | ⟨-, rfl⟩
    · exact h.apart j x hold hdone
    · exact absurd (h.old _ hdone) (lt_irrefl _)
  · intro j k hjk x hx hx'
    rcases hmem j x hx with hold | ⟨hj, hnew⟩
    · rcases hmem k x hx' with hold' | ⟨-, hnew⟩
      · exact h.timersApart j k hjk x hold hold'
      · exact absurd (h.pendingOld j x hold) (by omega)
    · rcases hmem k x hx' with hold' | ⟨hk, -⟩
      · exact absurd (h.pendingOld k x hold') (by omega)
      · exact hjk (hj.trans hk.symm)

omit [DecidableEq κ] in
theorem Once.take (h : Once s) {i : ι} {e : Event κ}
    (hdue : (s.timing.timers i).due = some e) : Once (s.take i e) := by
  have hself := Timer.popEvent_pending hdue
  have htaken : e.id ∈ (s.timing.timers i).pending := hself.mem_iff.mpr List.mem_cons_self
  have hrest : e.id ∉ (s.timing.timers i).popEvent.pending :=
    (List.nodup_cons.mp (hself.nodup_iff.mp (h.pendingNodup i))).1
  have hids : (s.take i e).ids = e.id :: s.ids := rfl
  have hmem : ∀ j x, x ∈ ((s.take i e).timing.timers j).pending →
      x ∈ (s.timing.timers j).pending ∧ x ≠ e.id := by
    intro j x hx
    by_cases hj : j = i
    · rw [hj] at hx ⊢
      rw [TimingState.take, on_self] at hx
      exact ⟨hself.mem_iff.mpr (List.mem_cons_of_mem _ hx), fun hxe => hrest (hxe ▸ hx)⟩
    · rw [TimingState.take, on_of_ne _ _ hj] at hx
      exact ⟨hx, fun hxe => h.timersApart j i hj x hx (hxe ▸ htaken)⟩
  constructor
  · rw [hids]
    exact List.nodup_cons.mpr ⟨h.apart i _ htaken, h.nodup⟩
  · intro x hx
    rw [hids] at hx
    rcases List.mem_cons.mp hx with rfl | hx
    · exact h.pendingOld i _ htaken
    · exact h.old x hx
  · intro j
    by_cases hj : j = i
    · rw [hj, TimingState.take, on_self]
      exact (List.nodup_cons.mp (hself.nodup_iff.mp (h.pendingNodup i))).2
    · rw [TimingState.take, on_of_ne _ _ hj]
      exact h.pendingNodup j
  · exact fun j x hx => h.pendingOld j x (hmem j x hx).1
  · intro j x hx
    rw [hids]
    exact List.not_mem_cons_of_ne_of_not_mem (hmem j x hx).2 (h.apart j x (hmem j x hx).1)
  · exact fun j k hjk x hx hx' =>
      h.timersApart j k hjk x (hmem j x hx).1 (hmem k x hx').1

omit [DecidableEq κ] in
theorem subperm_on (s : Timing ι κ) (i : ι) (f : Timer κ → Timer κ)
    (h : (f (s.timers i)).pending.Subperm (s.timers i).pending) (j : ι) :
    ((s.on i f).timers j).pending.Subperm (s.timers j).pending := by
  by_cases hj : j = i
  · rw [hj, on_self]
    exact h
  · rw [on_of_ne s f hj]

omit [DecidableEq ι] [DecidableEq κ] in
theorem once_start (baseTicks : Int) (scale : Nat → Nat) (core : ι) :
    Once ({ timing := .initial baseTicks scale core } : TimingState ι κ) := by
  constructor
  · exact List.nodup_nil
  · exact fun x hx => absurd hx List.not_mem_nil
  · exact fun i => List.nodup_nil
  · exact fun i x hx => absurd hx List.not_mem_nil
  · exact fun i x hx => absurd hx List.not_mem_nil
  · exact fun i j _ x hx => absurd hx List.not_mem_nil

theorem Once.step {a : Action ι κ} (h : Once s) (hstep : TimingStep s a t) : Once t := by
  cases hstep with
  | quiet c hc =>
      exact h.shrink rfl (Nat.le_succ _) fun i => (Call.run_of_none hc i).pending
  | schedule c i e hc => exact h.schedule hc
  | beginAdvance i _ =>
      exact h.shrink rfl le_rfl
        (subperm_on s.timing i Timer.beginAdvance (Timer.moveEvents_pending _).subperm)
  | dispatch i e _ hdue => exact h.take hdue
  | endAdvance i _ _ =>
      exact h.shrink rfl le_rfl (subperm_on s.timing i Timer.endAdvance (.refl _))

end AtMostOnce

/-! ## What joins a heap -/

namespace Timer

/-- All numbers in the heap have been given. -/
def Fresh (t : Timer κ) : Prop := ∀ e ∈ t.eventQueue, e.fifoOrder < t.eventFifoId

/-- The counter has room for the side queue and one more event. -/
def HasRoom (t : Timer κ) : Prop := t.eventFifoId + t.tsQueue.length + 1 < 2 ^ 64

/-- What joins the heap has the time of an event that satisfies `new`, and a number that was not
given before. -/
structure Grows (new : Event κ → Prop) (t t' : Timer κ) : Prop where
  queue : ∀ e ∈ t'.eventQueue, e ∈ t.eventQueue ∨
    (∃ f, new f ∧ e.time = f.time) ∧ t.eventFifoId ≤ e.fifoOrder
  counter : t.eventFifoId ≤ t'.eventFifoId
  fresh : t.Fresh → t'.Fresh
  waiting : ∀ e ∈ t'.tsQueue, e ∈ t.tsQueue ∨ new e
  executedTicks : t'.executedTicks = t.executedTicks
  isTimerSane : t'.isTimerSane = t.isTimerSane

section

variable {t t' t'' : Timer κ} {e f : Event κ} {new new' : Event κ → Prop}

theorem Same.grows (h : Same t t') : Grows new t t' where
  queue e he := .inl (h.eventQueue ▸ he)
  counter := h.eventFifoId.ge
  fresh ht := by
    rwa [Fresh, h.eventQueue, h.eventFifoId]
  waiting e he := .inl (h.tsQueue ▸ he)
  executedTicks := h.executedTicks
  isTimerSane := h.isTimerSane

theorem Grows.trans (h : Grows new t t') (h' : Grows new t' t'') : Grows new t t'' where
  queue e he := by
    rcases h'.queue e he with hold | ⟨hnew, hnumber⟩
    · exact h.queue e hold
    · exact .inr ⟨hnew, h.counter.trans hnumber⟩
  counter := h.counter.trans h'.counter
  fresh ht := h'.fresh (h.fresh ht)
  waiting e he := by
    rcases h'.waiting e he with hold | hnew
    · exact h.waiting e hold
    · exact .inr hnew
  executedTicks := h'.executedTicks.trans h.executedTicks
  isTimerSane := h'.isTimerSane.trans h.isTimerSane

theorem enqueue_mem : f ∈ (t.enqueue e).eventQueue ↔
    f = { e with fifoOrder := t.eventFifoId } ∨ f ∈ t.eventQueue := by
  rw [← Array.mem_toList_iff, (enqueue_toList t e).mem_iff, List.mem_cons, Array.mem_toList_iff]

theorem enqueue_eventFifoId (hroom : t.eventFifoId + 1 < 2 ^ 64) :
    (t.enqueue e).eventFifoId = t.eventFifoId + 1 := Nat.mod_eq_of_lt hroom

theorem grows_enqueue (hroom : t.eventFifoId + 1 < 2 ^ 64) (hnew : new e) :
    Grows new t (t.enqueue e) where
  queue f hf := by
    rcases enqueue_mem.mp hf with rfl | hold
    · exact .inr ⟨⟨e, hnew, rfl⟩, le_rfl⟩
    · exact .inl hold
  counter := by
    rw [enqueue_eventFifoId hroom]
    exact Nat.le_succ _
  fresh ht f hf := by
    rw [enqueue_eventFifoId hroom]
    rcases enqueue_mem.mp hf with rfl | hold
    · exact Nat.lt_succ_self _
    · exact (ht f hold).trans (Nat.lt_succ_self _)
  waiting f hf := .inl hf
  executedTicks := rfl
  isTimerSane := rfl

theorem grows_foldl (new : Event κ → Prop) (events : List (Event κ)) (t : Timer κ)
    (hroom : t.eventFifoId + events.length < 2 ^ 64) (hnew : ∀ e ∈ events, new e) :
    Grows new t (events.foldl enqueue t) := by
  induction events generalizing t with
  | nil => exact Same.grows (.refl t)
  | cons e rest ih =>
      rw [List.length_cons] at hroom
      refine (grows_enqueue (by omega) (hnew e List.mem_cons_self)).trans (ih (t.enqueue e) ?_ ?_)
      · rw [enqueue_eventFifoId (by omega)]
        omega
      · exact fun f hf => hnew f (List.mem_cons_of_mem e hf)

theorem grows_moveEvents (hroom : t.HasRoom) : Grows (· ∈ t.tsQueue) t t.moveEvents := by
  have hfold := grows_foldl (· ∈ t.tsQueue) t.tsQueue { t with tsQueue := [] }
    (by unfold HasRoom at hroom; dsimp only; omega) fun e he => he
  exact ⟨hfold.queue, hfold.counter, hfold.fresh, fun e he => (hfold.waiting e he).imp
    (fun h => absurd h List.not_mem_nil) id, hfold.executedTicks, hfold.isTimerSane⟩

theorem moveEvents_tsQueue (t : Timer κ) : t.moveEvents.tsQueue = [] := by
  have hfold : ∀ (events : List (Event κ)) (t : Timer κ),
      (events.foldl enqueue t).tsQueue = t.tsQueue := by
    intro events
    induction events with
    | nil => exact fun t => rfl
    | cons e rest ih => exact fun t => ih (t.enqueue e)
  exact hfold _ _

theorem erase_mem {selects : Event κ → Bool} (h : e ∈ (t.erase selects).eventQueue) :
    e ∈ t.eventQueue := by
  unfold erase at h
  split at h
  · rw [← Array.mem_toList_iff, (BinaryHeap.make_perm _).mem_iff] at h
    exact Array.mem_toList_iff.mp (List.mem_filter.mp h).1
  · exact h

theorem erase_same (selects : Event κ → Bool) (t : Timer κ) :
    (t.erase selects).eventFifoId = t.eventFifoId ∧ (t.erase selects).tsQueue = t.tsQueue ∧
      (t.erase selects).executedTicks = t.executedTicks ∧
      (t.erase selects).isTimerSane = t.isTimerSane := by
  unfold erase
  split
  · exact ⟨rfl, rfl, rfl, rfl⟩
  · exact ⟨rfl, rfl, rfl, rfl⟩

theorem grows_erase (selects : Event κ → Bool) (t : Timer κ) : Grows new t (t.erase selects) where
  queue e he := .inl (erase_mem he)
  counter := (erase_same selects t).1.ge
  fresh ht e he := by
    rw [(erase_same selects t).1]
    exact ht e (erase_mem he)
  waiting e he := .inl ((erase_same selects t).2.1 ▸ he)
  executedTicks := (erase_same selects t).2.2.1
  isTimerSane := (erase_same selects t).2.2.2

theorem Rearranged.grows (h : Rearranged t t') (hroom : t.HasRoom) :
    Grows (· ∈ t.tsQueue) t t' := by
  cases h with
  | same h => exact h.grows
  | moved => exact grows_moveEvents hroom
  | erased selects => exact grows_erase selects t

theorem Scheduled.grows (h : Scheduled e t t') (hroom : t.HasRoom) : Grows (· = e) t t' := by
  cases h with
  | queued h =>
      unfold HasRoom at hroom
      refine h.grows.trans (grows_enqueue ?_ rfl)
      rw [h.eventFifoId]
      omega
  | waiting =>
      refine ⟨fun f hf => .inl hf, le_rfl, id, fun f hf => ?_, rfl, rfl⟩
      rcases List.mem_append.mp hf with hold | hnew
      · exact .inl hold
      · exact .inr (List.mem_singleton.mp hnew)

theorem popEvent_mem (hdue : t.due = some e) :
    f ∈ t.eventQueue ↔ f = e ∨ f ∈ t.popEvent.eventQueue := by
  rw [← Array.mem_toList_iff, (popEvent_toList hdue).mem_iff, List.mem_cons, Array.mem_toList_iff]

end

end Timer

/-! ## Heaps -/

/-- The event queue of every timer is a heap. -/
def TimingState.Heaped (s : TimingState ι κ) : Prop := ∀ i, (s.timing.timers i).Heaped

section Heaps

variable [DecidableEq ι] [DecidableEq κ] {s t : TimingState ι κ}

omit [DecidableEq ι] [DecidableEq κ] in
theorem heaped_start (baseTicks : Int) (scale : Nat → Nat) (core : ι) :
    ({ timing := .initial baseTicks scale core } : TimingState ι κ).Heaped :=
  fun _ => BinaryHeap.isHeap_empty _

theorem TimingState.Heaped.step {a : Action ι κ} (h : s.Heaped) (hstep : TimingStep s a t) :
    t.Heaped := by
  have hon : ∀ i f, (f (s.timing.timers i)).Heaped → ∀ j,
      ((s.timing.on i f).timers j).Heaped := by
    intro i f hf j
    by_cases hj : j = i
    · rw [hj, on_self]
      exact hf
    · rw [on_of_ne _ _ hj]
      exact h j
  cases hstep with
  | quiet c hc => exact fun i => (Call.run_of_none hc i).heaped (h i)
  | schedule c i e hc =>
      obtain ⟨-, hself, hother⟩ := Call.run_of_some hc
      intro j
      by_cases hj : j = i
      · exact hj ▸ hself.heaped (h i)
      · exact (hother j hj).symm ▸ h j
  | beginAdvance i _ => exact hon i Timer.beginAdvance (h i).moveEvents
  | dispatch i e _ _ => exact hon i Timer.popEvent (h i).popEvent
  | endAdvance i _ _ => exact hon i Timer.endAdvance (h i)

end Heaps

/-! ## The order of the dispatched events

With `whole`, the order is that of the whole run of a core; without it, that of one `Advance`. -/

section Order

variable [DecidableEq ι] [DecidableEq κ] {whole : Prop} {s t : TimingState ι κ}

/-- The order concerns what the timer does now. -/
def Active (whole : Prop) (s : TimingState ι κ) (i : ι) : Prop := whole ∨ s.advancing = some i

/-- The order concerns what comes after this dispatch. -/
def Current (whole : Prop) (s : TimingState ι κ) (d : Dispatch ι κ) : Prop :=
  whole ∨ s.advancing = some d.core ∧ d.advance = s.advances

/-- The events dispatched so far came in order, and the ones to come follow them. -/
structure Ordered (whole : Prop) (s : TimingState ι κ) : Prop where
  fresh : ∀ i, (s.timing.timers i).Fresh
  sane : ∀ i, s.advancing = some i → (s.timing.timers i).isTimerSane = true
  late : ∀ i, Active whole s i → ∀ e ∈ (s.timing.timers i).tsQueue,
    (s.timing.timers i).executedTicks ≤ e.time
  bound : ∀ d ∈ s.dispatched, d.advance ≤ s.advances
  log : ∀ d ∈ s.dispatched, Current whole s d →
    d.event.time ≤ (s.timing.timers d.core).executedTicks ∧
      d.event.fifoOrder < (s.timing.timers d.core).eventFifoId ∧
      ∀ e ∈ (s.timing.timers d.core).eventQueue, d.event.key ≤ e.key
  sorted : s.dispatched.Pairwise fun later earlier => later.core = earlier.core →
    (whole ∨ later.advance = earlier.advance) → earlier.event.key ≤ later.event.key

/-- What the order needs of a step. -/
structure Timely (whole : Prop) (s : TimingState ι κ) (a : Action ι κ) : Prop where
  room : ∀ i, (s.timing.timers i).HasRoom
  scheduled : ∀ c i e, a = .call c → c.scheduled s.nextId s.timing = some (i, e) →
    Active whole s i → (s.timing.timers i).executedTicks ≤ e.time
  advances : ∀ i, a = .beginAdvance i → whole →
    (s.timing.timers i).executedTicks ≤ (s.timing.timers i).beginAdvance.executedTicks

omit [DecidableEq ι] [DecidableEq κ] in
theorem Ordered.grow (h : Ordered whole s) (hadvancing : t.advancing = s.advancing)
    (hadvances : t.advances = s.advances) (hdispatched : t.dispatched = s.dispatched)
    (hgrows : ∀ i, ∃ new, Timer.Grows new (s.timing.timers i) (t.timing.timers i) ∧
      (Active whole s i → ∀ e, new e → (s.timing.timers i).executedTicks ≤ e.time)) :
    Ordered whole t := by
  have hactive : ∀ i, Active whole t i → Active whole s i := fun i => by
    rw [Active, Active, hadvancing]
    exact id
  have hcurrent : ∀ d, Current whole t d → Current whole s d := fun d => by
    rw [Current, Current, hadvancing, hadvances]
    exact id
  constructor
  · intro i
    obtain ⟨new, hgrow, -⟩ := hgrows i
    exact hgrow.fresh (h.fresh i)
  · intro i hi
    obtain ⟨new, hgrow, -⟩ := hgrows i
    rw [hgrow.isTimerSane]
    exact h.sane i (hadvancing ▸ hi)
  · intro i hi e he
    obtain ⟨new, hgrow, hnew⟩ := hgrows i
    rw [hgrow.executedTicks]
    rcases hgrow.waiting e he with hold | he'
    · exact h.late i (hactive i hi) e hold
    · exact hnew (hactive i hi) e he'
  · rw [hdispatched, hadvances]
    exact h.bound
  · intro d hd hd'
    rw [hdispatched] at hd
    obtain ⟨htime, hnumber, hqueue⟩ := h.log d hd (hcurrent d hd')
    obtain ⟨new, hgrow, hnew⟩ := hgrows d.core
    refine ⟨hgrow.executedTicks.symm ▸ htime, hnumber.trans_le hgrow.counter, fun e he => ?_⟩
    rcases hgrow.queue e he with hold | ⟨⟨f, hf, htime'⟩, hfresh⟩
    · exact hqueue e hold
    · have hactive' : Active whole s d.core := (hcurrent d hd').imp id And.left
      have hlater := hnew hactive' f hf
      refine Event.key_le.mpr ?_
      omega
  · rw [hdispatched]
    exact h.sorted

omit [DecidableEq κ] in
theorem Ordered.beginAdvance (h : Ordered whole s) {i : ι}
    (htimely : Timely whole s (.beginAdvance i)) :
    Ordered whole { s with
      timing := s.timing.on i Timer.beginAdvance
      advancing := some i
      advances := s.advances + 1 } := by
  have hgrow := Timer.grows_moveEvents (htimely.room i)
  have hwhole : ∀ d ∈ s.dispatched, ∀ core : Option ι,
      whole ∨ core = some d.core ∧ d.advance = s.advances + 1 → whole := by
    intro d hd core hor
    rcases hor with hwhole | ⟨-, hadvance⟩
    · exact hwhole
    · have := h.bound d hd
      omega
  constructor
  · intro j
    by_cases hj : j = i
    · rw [hj, on_self]
      exact hgrow.fresh (h.fresh i)
    · rw [on_of_ne _ _ hj]
      exact h.fresh j
  · intro j hj
    cases hj
    rw [on_self]
    rfl
  · intro j hactive e he
    by_cases hj : j = i
    · rw [hj, on_self] at he
      rw [Timer.beginAdvance] at he
      dsimp only at he
      rw [Timer.moveEvents_tsQueue] at he
      cases he
    · rw [on_of_ne _ _ hj] at he ⊢
      refine h.late j (.inl (hactive.resolve_right fun hsome => hj ?_)) e he
      exact (Option.some.inj hsome).symm
  · exact fun d hd => (h.bound d hd).trans (Nat.le_succ _)
  · intro d hd hcurrent
    have hw : whole := hwhole d hd _ hcurrent
    obtain ⟨htime, hnumber, hqueue⟩ := h.log d hd (.inl hw)
    dsimp only
    by_cases hj : d.core = i
    · rw [hj] at htime hnumber hqueue ⊢
      rw [on_self]
      refine ⟨htime.trans (htimely.advances i rfl hw), hnumber.trans_le hgrow.counter,
        fun e he => ?_⟩
      rcases hgrow.queue e he with hold | ⟨⟨f, hf, htime'⟩, hfresh⟩
      · exact hqueue e hold
      · have hlater := h.late i (.inl hw) f hf
        refine Event.key_le.mpr ?_
        omega
    · rw [on_of_ne _ _ hj]
      exact ⟨htime, hnumber, hqueue⟩
  · exact h.sorted

omit [DecidableEq κ] in
theorem Ordered.take (h : Ordered whole s) (hheaped : s.Heaped) {i : ι} {e : Event κ}
    (hadvancing : s.advancing = some i)
    (hdue : (s.timing.timers i).due = some e) : Ordered whole (s.take i e) := by
  have hmem : ∀ f, f ∈ (s.timing.timers i).popEvent.eventQueue →
      f ∈ (s.timing.timers i).eventQueue :=
    fun f hf => (Timer.popEvent_mem hdue).mpr (.inr hf)
  have hfront := (Timer.due_eq_some.mp hdue).1
  have htaken : e ∈ (s.timing.timers i).eventQueue := (Timer.popEvent_mem hdue).mpr (.inl rfl)
  have hlog : ∀ d ∈ s.dispatched, Current whole s d →
      d.event.time ≤ ((s.take i e).timing.timers d.core).executedTicks ∧
        d.event.fifoOrder < ((s.take i e).timing.timers d.core).eventFifoId ∧
        ∀ f ∈ ((s.take i e).timing.timers d.core).eventQueue, d.event.key ≤ f.key := by
    intro d hd hcurrent
    obtain ⟨htime, hnumber, hqueue⟩ := h.log d hd hcurrent
    by_cases hj : d.core = i
    · rw [hj] at htime hnumber hqueue ⊢
      rw [TimingState.take, on_self]
      exact ⟨htime, hnumber, fun f hf => hqueue f (hmem f hf)⟩
    · rw [TimingState.take, on_of_ne _ _ hj]
      exact ⟨htime, hnumber, hqueue⟩
  constructor
  · intro j
    by_cases hj : j = i
    · rw [hj, TimingState.take, on_self]
      exact fun f hf => h.fresh i f (hmem f hf)
    · rw [TimingState.take, on_of_ne _ _ hj]
      exact h.fresh j
  · intro j hj
    obtain rfl := Option.some.inj (hadvancing.symm.trans hj)
    rw [TimingState.take, on_self]
    exact h.sane i hadvancing
  · intro j hactive f hf
    by_cases hj : j = i
    · rw [hj, TimingState.take, on_self] at hf ⊢
      exact h.late i (.inr hadvancing) f hf
    · rw [TimingState.take, on_of_ne _ _ hj] at hf ⊢
      exact h.late j hactive f hf
  · intro d hd
    rcases List.mem_cons.mp hd with rfl | hd
    · exact le_rfl
    · exact h.bound d hd
  · intro d hd hcurrent
    rcases List.mem_cons.mp hd with rfl | hd
    · dsimp only
      rw [TimingState.take, on_self]
      refine ⟨(Timer.due_eq_some.mp hdue).2, h.fresh i e htaken, fun f hf => ?_⟩
      exact (hheaped i).front_le hfront (hmem f hf)
    · exact hlog d hd hcurrent
  · refine List.pairwise_cons.mpr ⟨fun d hd hcore hsame => ?_, h.sorted⟩
    have hcurrent : Current whole s d :=
      hsame.imp id fun hadvance => ⟨hadvancing.trans (congrArg some hcore), hadvance.symm⟩
    exact (h.log d hd hcurrent).2.2 e (hcore ▸ htaken)

omit [DecidableEq κ] in
theorem Ordered.endAdvance (h : Ordered whole s) (i : ι) :
    Ordered whole { s with timing := s.timing.on i Timer.endAdvance, advancing := none } := by
  have hsame : ∀ (Q : Timer κ → Prop), (∀ t, Q t → Q t.endAdvance) → ∀ j,
      Q (s.timing.timers j) → Q ((s.timing.on i Timer.endAdvance).timers j) := by
    intro Q hQ j hj
    by_cases hji : j = i
    · rw [hji, on_self]
      exact hQ _ (hji ▸ hj)
    · rwa [on_of_ne _ _ hji]
  constructor
  · exact fun j => hsame Timer.Fresh (fun _ h => h) j (h.fresh j)
  · exact fun j hj => nomatch hj
  · exact fun j hj => hsame (fun t => ∀ e ∈ t.tsQueue, t.executedTicks ≤ e.time) (fun _ h => h) j
      (h.late j (.inl (hj.resolve_right nofun)))
  · exact h.bound
  · intro d hd hcurrent
    have hw : whole := hcurrent.resolve_right fun hc => nomatch hc.1
    exact hsame (fun t => d.event.time ≤ t.executedTicks ∧ d.event.fifoOrder < t.eventFifoId ∧
      ∀ e ∈ t.eventQueue, d.event.key ≤ e.key) (fun _ h => h) d.core (h.log d hd (.inl hw))
  · exact h.sorted

theorem Ordered.step {a : Action ι κ} (h : Ordered whole s) (hheaped : s.Heaped)
    (htimely : Timely whole s a)
    (hstep : TimingStep s a t) : Ordered whole t := by
  cases hstep with
  | quiet c hc =>
      refine h.grow rfl rfl rfl fun i => ?_
      exact ⟨_, (Call.run_of_none hc i).grows (htimely.room i), h.late i⟩
  | schedule c i e hc =>
      obtain ⟨-, hself, hother⟩ := Call.run_of_some hc
      refine h.grow rfl rfl rfl fun j => ?_
      by_cases hj : j = i
      · subst hj
        refine ⟨_, hself.grows (htimely.room j), fun hactive f hf => ?_⟩
        exact hf ▸ htimely.scheduled c j e rfl hc hactive
      · dsimp only
        rw [hother j hj]
        exact ⟨fun _ => False, (Timer.Same.refl _).grows, fun _ _ hf => hf.elim⟩
  | beginAdvance i _ => exact h.beginAdvance htimely
  | dispatch i e hadvancing hdue => exact h.take hheaped hadvancing hdue
  | endAdvance i _ _ => exact h.endAdvance i

omit [DecidableEq ι] [DecidableEq κ] in
theorem ordered_start (whole : Prop) (baseTicks : Int) (scale : Nat → Nat) (core : ι) :
    Ordered whole ({ timing := .initial baseTicks scale core } : TimingState ι κ) where
  fresh _ e he := absurd he (Array.not_mem_empty e)
  sane _ _ := rfl
  late _ _ _ he := absurd he List.not_mem_nil
  bound _ hd := absurd hd List.not_mem_nil
  log _ hd := absurd hd List.not_mem_nil
  sorted := .nil

end Order

/-! ## Times that fit -/

section Times

variable [DecidableEq ι] [DecidableEq κ] {s t : TimingState ι κ}

/-- Ticks that the current slice has used. -/
def Timer.elapsed (t : Timer κ) : Int := if t.isTimerSane then 0 else t.sliceLength - t.downcount

/-- How far ahead an event is scheduled. -/
def delay (threadSafeMode : Bool) (cyclesIntoFuture : Int) : Int :=
  if threadSafeMode then Timing.safeCycles cyclesIntoFuture else cyclesIntoFuture

/-- The time of every timer is an `s64`. -/
def InRange (s : TimingState ι κ) : Prop :=
  ∀ i, -2 ^ 63 ≤ (s.timing.timers i).executedTicks ∧ (s.timing.timers i).executedTicks < 2 ^ 63

omit [DecidableEq ι] [DecidableEq κ] in
theorem eventFor_time (t : Timer κ) (cycles : Int) (type : κ) (userData id : Nat)
    (hlow : -2 ^ 63 ≤ t.executedTicks + t.elapsed + cycles)
    (hhigh : t.executedTicks + t.elapsed + cycles < 2 ^ 63) :
    (Timing.eventFor t cycles type userData id).time = t.executedTicks + t.elapsed + cycles := by
  have hsame : wrapS64 (t.getTicks + cycles) = wrapS64 (t.executedTicks + t.elapsed + cycles) := by
    refine wrapS64_congr ?_
    rw [Timer.getTicks, wrapU64_cast, Int.emod_add_emod]
    rfl
  exact hsame.trans (wrapS64_eq hlow hhigh)

omit [DecidableEq ι] [DecidableEq κ] in
theorem moveEvents_slice (t : Timer κ) : t.moveEvents.sliceLength = t.sliceLength ∧
    t.moveEvents.downcount = t.downcount ∧ t.moveEvents.executedTicks = t.executedTicks := by
  have hfold : ∀ (events : List (Event κ)) (t : Timer κ),
      (events.foldl Timer.enqueue t).sliceLength = t.sliceLength ∧
        (events.foldl Timer.enqueue t).downcount = t.downcount ∧
        (events.foldl Timer.enqueue t).executedTicks = t.executedTicks := by
    intro events
    induction events with
    | nil => exact fun t => ⟨rfl, rfl, rfl⟩
    | cons e rest ih => exact fun t => ih (t.enqueue e)
  exact hfold t.tsQueue { t with tsQueue := [] }

omit [DecidableEq ι] [DecidableEq κ] in
theorem beginAdvance_executedTicks (t : Timer κ) : t.beginAdvance.executedTicks =
    wrapS64 (t.executedTicks + (t.sliceLength - t.downcount)) := by
  obtain ⟨hslice, hdowncount, hexecuted⟩ := moveEvents_slice t
  rw [Timer.beginAdvance]
  dsimp only
  rw [hslice, hdowncount, hexecuted]
  refine wrapS64_congr ?_
  rw [Int.add_emod, wrapS64_emod, ← Int.add_emod]

omit [DecidableEq ι] [DecidableEq κ] in
theorem Timer.Rearranged.executedTicks {t t' : Timer κ} (h : Rearranged t t') :
    t'.executedTicks = t.executedTicks := by
  cases h with
  | same h => exact h.executedTicks
  | moved => exact (moveEvents_slice t).2.2
  | erased selects => exact (erase_same selects t).2.2.1

omit [DecidableEq ι] [DecidableEq κ] in
theorem Timer.Scheduled.executedTicks {t t' : Timer κ} {e : Event κ} (h : Scheduled e t t') :
    t'.executedTicks = t.executedTicks := by
  cases h with
  | queued h => exact h.executedTicks
  | waiting => rfl

theorem InRange.step {a : Action ι κ} (h : InRange s) (hstep : TimingStep s a t) : InRange t := by
  have hon : ∀ i f, (-2 ^ 63 ≤ (f (s.timing.timers i)).executedTicks ∧
      (f (s.timing.timers i)).executedTicks < 2 ^ 63) → ∀ j,
      -2 ^ 63 ≤ ((s.timing.on i f).timers j).executedTicks ∧
        ((s.timing.on i f).timers j).executedTicks < 2 ^ 63 := by
    intro i f hf j
    by_cases hj : j = i
    · rw [hj, on_self]
      exact hf
    · rw [on_of_ne _ _ hj]
      exact h j
  cases hstep with
  | quiet c hc =>
      exact fun i => (Call.run_of_none hc i).executedTicks.symm ▸ h i
  | schedule c i e hc =>
      obtain ⟨-, hself, hother⟩ := Call.run_of_some hc
      intro j
      by_cases hj : j = i
      · rw [hj]
        exact hself.executedTicks.symm ▸ h i
      · exact (hother j hj).symm ▸ h j
  | beginAdvance i _ =>
      refine hon i Timer.beginAdvance ?_
      rw [beginAdvance_executedTicks]
      exact ⟨le_wrapS64 _, wrapS64_lt _⟩
  | dispatch i e _ _ => exact hon i Timer.popEvent (h i)
  | endAdvance i _ _ => exact hon i Timer.endAdvance (h i)

/-- The callbacks schedule nothing in the past. -/
def CallbacksAhead (s : TimingState ι κ) : Action ι κ → Prop
  | .call (.scheduleEvent cycles _ _ _ _) => s.advancing ≠ none → 0 ≤ cycles
  | _ => True

/-- No counter of events overflows. -/
def Room (s : TimingState ι κ) : Prop := ∀ i, (s.timing.timers i).HasRoom

/-- What a callback schedules for the timer that is advancing has a time below `2^63`. -/
def Fits (s : TimingState ι κ) : Action ι κ → Prop
  | .call (.scheduleEvent cycles _ _ coreId threadSafeMode) =>
      Room s ∧ (s.advancing = some (s.timing.target coreId) →
        (s.timing.timers (s.timing.target coreId)).executedTicks +
          delay threadSafeMode cycles < 2 ^ 63)
  | _ => Room s

/-- Nothing is scheduled in the past or beyond `2^63`, and time advances and stays below it. -/
def OnTime (s : TimingState ι κ) : Action ι κ → Prop
  | .call (.scheduleEvent cycles _ _ coreId threadSafeMode) =>
      Room s ∧ 0 ≤ cycles ∧ 0 ≤ (s.timing.timers (s.timing.target coreId)).elapsed ∧
        (s.timing.timers (s.timing.target coreId)).executedTicks +
          (s.timing.timers (s.timing.target coreId)).elapsed +
            delay threadSafeMode cycles < 2 ^ 63
  | .beginAdvance i =>
      Room s ∧ 0 ≤ (s.timing.timers i).sliceLength - (s.timing.timers i).downcount ∧
        (s.timing.timers i).executedTicks +
          ((s.timing.timers i).sliceLength - (s.timing.timers i).downcount) < 2 ^ 63
  | _ => Room s

omit [DecidableEq ι] [DecidableEq κ] in
theorem le_delay (threadSafeMode : Bool) {cycles : Int} (h : 0 ≤ cycles) :
    0 ≤ delay threadSafeMode cycles := by
  unfold delay Timing.safeCycles
  split <;> omega

omit [DecidableEq ι] [DecidableEq κ] in
theorem scheduled_event {c : Call ι κ} {i : ι} {e : Event κ}
    (h : c.scheduled s.nextId s.timing = some (i, e)) :
    ∃ cycles type userData coreId threadSafeMode,
      c = .scheduleEvent cycles type userData coreId threadSafeMode ∧ i = s.timing.target coreId ∧
        e = Timing.eventFor (s.timing.timers i) (delay threadSafeMode cycles) type userData
          s.nextId := by
  cases c with
  | scheduleEvent cycles type userData coreId threadSafeMode =>
      rw [Call.scheduled] at h
      split at h
      · cases h
      · obtain ⟨rfl, rfl⟩ := Prod.mk.inj (Option.some.inj h)
        exact ⟨cycles, type, userData, coreId, threadSafeMode, rfl, rfl, rfl⟩
  | unscheduleEvent type userData => cases h
  | removeEvent type => cases h
  | moveEvents core => cases h
  | addTicks core ticks => cases h
  | setNextSlice core maxSlice => cases h
  | idle core => cases h
  | setCurrentTimer core => cases h
  | updateClockSpeed scale => cases h

omit [DecidableEq ι] [DecidableEq κ] in
theorem Fits.room {a : Action ι κ} (h : Fits s a) : Room s := by
  unfold Fits at h
  split at h
  · exact h.1
  · exact h

omit [DecidableEq ι] [DecidableEq κ] in
theorem OnTime.room {a : Action ι κ} (h : OnTime s a) : Room s := by
  unfold OnTime at h
  split at h
  · exact h.1
  · exact h.1
  · exact h

omit [DecidableEq ι] [DecidableEq κ] in
theorem Fits.timely {a : Action ι κ} (hfits : Fits s a) (hahead : CallbacksAhead s a)
    (hrange : InRange s) (hordered : Ordered False s) : Timely False s a := by
  refine ⟨hfits.room, fun c i e ha hc hactive => ?_, fun _ _ h => h.elim⟩
  obtain ⟨cycles, type, userData, coreId, threadSafeMode, rfl, rfl, rfl⟩ := scheduled_event hc
  subst ha
  have hadvancing : s.advancing = some (s.timing.target coreId) := hactive.resolve_left id
  have hfit := hfits.2 hadvancing
  have hcycles : 0 ≤ cycles := hahead (by rw [hadvancing]; nofun)
  have hdelay := le_delay threadSafeMode hcycles
  have hlow := (hrange (s.timing.target coreId)).1
  have helapsed : (s.timing.timers (s.timing.target coreId)).elapsed = 0 := by
    rw [Timer.elapsed, hordered.sane _ hadvancing]
    rfl
  rw [eventFor_time _ _ _ _ _ (by omega) (by omega)]
  omega

omit [DecidableEq ι] [DecidableEq κ] in
theorem OnTime.timely {a : Action ι κ} (htime : OnTime s a) (hrange : InRange s) :
    Timely True s a := by
  refine ⟨htime.room, fun c i e ha hc _ => ?_, fun i ha _ => ?_⟩
  · obtain ⟨cycles, type, userData, coreId, threadSafeMode, rfl, rfl, rfl⟩ := scheduled_event hc
    subst ha
    obtain ⟨-, hcycles, helapsed, hfit⟩ := htime
    have hdelay := le_delay threadSafeMode hcycles
    have hlow := (hrange (s.timing.target coreId)).1
    rw [eventFor_time _ _ _ _ _ (by omega) (by omega)]
    omega
  · subst ha
    obtain ⟨-, helapsed, hfit⟩ := htime
    have hlow := (hrange i).1
    rw [beginAdvance_executedTicks, wrapS64_eq (by omega) (by omega)]
    omega

end Times

/-! ## The dispatched events -/

section Dispatched

variable [DecidableEq ι] [DecidableEq κ]

/-- No event was dispatched twice. -/
def AtMostOnce (s : TimingState ι κ) : Prop := s.ids.Nodup

/-- No event was dispatched before its time. -/
def NeverEarly (s : TimingState ι κ) : Prop := ∀ d ∈ s.dispatched, d.event.time ≤ d.executedTicks

/-- An `Advance` that can return leaves no event that is due. -/
def NoneDue (s : TimingState ι κ) : Prop :=
  ∀ t core, s.advancing = some core → s.next .endAdvance = some t →
    ∀ e ∈ (t.timing.timers core).eventQueue, (t.timing.timers core).executedTicks < e.time

/-- The events of each `Advance` were dispatched in order. -/
def SortedWithin (s : TimingState ι κ) : Prop :=
  s.dispatched.Pairwise fun later earlier => later.core = earlier.core →
    later.advance = earlier.advance → earlier.event.key ≤ later.event.key

/-- The events of each timer were dispatched in order. -/
def SortedThroughout (s : TimingState ι κ) : Prop :=
  s.dispatched.Pairwise fun later earlier => later.core = earlier.core →
    earlier.event.key ≤ later.event.key

/-- Events are dispatched at most once and never early, and none is left over. They come in order
within an `Advance` if no time scheduled by its callbacks overflows, and in order throughout if
everything is scheduled ahead of time. -/
theorem events_dispatched_in_order :
    (∀ s : TimingState ι κ, TimingReachable (fun _ _ => True) s →
      AtMostOnce s ∧ NeverEarly s ∧ NoneDue s) ∧
    (∀ s : TimingState ι κ, TimingReachable (fun s a => CallbacksAhead s a ∧ Fits s a) s →
      SortedWithin s) ∧
    (∀ s : TimingState ι κ, TimingReachable OnTime s → SortedThroughout s) := by
  refine ⟨fun s hs => ⟨?_, ?_, ?_⟩, fun s hs => ?_, fun s hs => ?_⟩
  · exact (hs.invariant (fun base scale core _ _ => once_start base scale core)
      fun s a t h _ hstep => h.step hstep).nodup
  · refine hs.invariant (Q := NeverEarly) (fun _ _ _ _ _ _ hd => absurd hd List.not_mem_nil) ?_
    intro s a t h _ hstep
    cases hstep with
    | quiet c _ => exact h
    | schedule c i e _ => exact h
    | beginAdvance i _ => exact h
    | dispatch i e _ hdue =>
        intro d hd
        rcases List.mem_cons.mp hd with rfl | hd
        · exact (Timer.due_eq_some.mp hdue).2
        · exact h d hd
    | endAdvance i _ _ => exact h
  · have hheaped : s.Heaped := hs.invariant (fun base scale core _ _ => heaped_start base scale core)
      fun s a t h _ hstep => h.step hstep
    intro t core hadvancing hnext e he
    cases TimingState.next_cases hnext with
    | endAdvance i hi hdue =>
        obtain rfl := Option.some.inj (hadvancing.symm.trans hi)
        rw [Timing.on_self] at he ⊢
        exact (hheaped core).lt_of_due hdue he
  · have hinv := hs.invariant (Q := fun s => InRange s ∧ s.Heaped ∧ Ordered False s)
      (fun base scale core hlow hhigh => ⟨fun _ => ⟨hlow, hhigh⟩, heaped_start base scale core,
        ordered_start False base scale core⟩)
      fun s a t h hP hstep => ⟨h.1.step hstep, h.2.1.step hstep,
        h.2.2.step h.2.1 (hP.2.timely hP.1 h.1 h.2.2) hstep⟩
    exact hinv.2.2.sorted.imp fun h hcore hadvance => h hcore (.inr hadvance)
  · have hinv := hs.invariant (Q := fun s => InRange s ∧ s.Heaped ∧ Ordered True s)
      (fun base scale core hlow hhigh => ⟨fun _ => ⟨hlow, hhigh⟩, heaped_start base scale core,
        ordered_start True base scale core⟩)
      fun s a t h hP hstep => ⟨h.1.step hstep, h.2.1.step hstep,
        h.2.2.step h.2.1 (hP.timely h.1) hstep⟩
    exact hinv.2.2.sorted.imp fun h hcore => h hcore (.inl trivial)

end Dispatched

/-- A callback that schedules an event `2^63 - 1` cycles ahead makes one that is due at once, and
before the one it was called for. -/
theorem callback_time_overflows :
    ¬ ∀ s : TimingState Unit Unit, TimingReachable CallbacksAhead s → SortedWithin s := by
  intro h
  have h₀ : TimingReachable CallbacksAhead
      ({ timing := .initial 1 id () } : TimingState Unit Unit) := .start 1 id () (by decide) (by decide)
  have h₁ := h₀.step (.call (.scheduleEvent 0 () 0 none false)) (fun _ => le_rfl) rfl
  have h₂ := h₁.step (.beginAdvance ()) trivial rfl
  have h₃ := h₂.step .dispatch trivial rfl
  have h₄ := h₃.step (.call (.scheduleEvent (2 ^ 63 - 1) () 0 none false)) (fun _ => by decide) rfl
  have h₅ := h₄.step .dispatch trivial rfl
  have hsorted := (List.pairwise_cons.mp (h _ h₅)).1 _ List.mem_cons_self rfl rfl
  exact absurd hsorted (by decide)

end Cytrus.Core
