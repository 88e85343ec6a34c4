import Cytrus.Core.Timing

/-!
# Runs of the timing system

Calls on the timers in any order, and `Advance` in small steps: its start, one
round of its loop, and its end. Between two steps of an `Advance` come the calls
that the callbacks make.

## Implementation notes

`dispatched` lists the events that `Advance` has taken from a queue, the newest
first, with the call of `Advance` that took them.
-/

namespace Cytrus.Core

open Support

variable {ι κ : Type}

/-! ## What a call does to one timer -/

namespace Timer

/-- The numbers of the events that a timer holds. -/
def pending (t : Timer κ) : List Nat :=
  t.eventQueue.toList.map Event.id ++ t.tsQueue.map Event.id

/-- The same events and the same time. -/
structure Same (t t' : Timer κ) : Prop where
  eventQueue : t'.eventQueue = t.eventQueue
  eventFifoId : t'.eventFifoId = t.eventFifoId
  tsQueue : t'.tsQueue = t.tsQueue
  isTimerSane : t'.isTimerSane = t.isTimerSane
  executedTicks : t'.executedTicks = t.executedTicks

theorem Same.refl (t : Timer κ) : Same t t := ⟨rfl, rfl, rfl, rfl, rfl⟩

theorem forceExceptionCheck_same (t : Timer κ) (cycles : Int) :
    Same t (t.forceExceptionCheck cycles) := by
  unfold forceExceptionCheck
  split
  · exact ⟨rfl, rfl, rfl, rfl, rfl⟩
  · exact .refl t

/-- A call that schedules nothing keeps the events, moves the side queue to the heap, or erases
events from the heap. -/
inductive Rearranged (t : Timer κ) : Timer κ → Prop
  | same {t'} : Same t t' → Rearranged t t'
  | moved : Rearranged t t.moveEvents
  | erased (selects : Event κ → Bool) : Rearranged t (t.erase selects)

/-- A call that schedules an event puts it in the heap or in the side queue. -/
inductive Scheduled (e : Event κ) (t : Timer κ) : Timer κ → Prop
  | queued {t'} : Same t t' → Scheduled e t (t'.enqueue e)
  | waiting : Scheduled e t { t with tsQueue := t.tsQueue ++ [e] }

section

variable {t t' : Timer κ} {e f : Event κ}

theorem Same.pending (h : Same t t') : t'.pending = t.pending := by
  rw [Timer.pending, Timer.pending, h.eventQueue, h.tsQueue]

theorem enqueue_toList (t : Timer κ) (e : Event κ) : (t.enqueue e).eventQueue.toList.Perm
    ({ e with fifoOrder := t.eventFifoId } :: t.eventQueue.toList) :=
  (BinaryHeap.push_perm _ _).trans (List.perm_append_singleton _ _)

theorem enqueue_pending (t : Timer κ) (e : Event κ) :
    (t.enqueue e).pending.Perm (e.id :: t.pending) :=
  ((enqueue_toList t e).map Event.id).append_right _

theorem moveEvents_pending (t : Timer κ) : t.moveEvents.pending.Perm t.pending := by
  have hfold : ∀ (events : List (Event κ)) (t : Timer κ), (events.foldl enqueue t).pending.Perm
      (t.pending ++ events.map Event.id) := by
    intro events
    induction events with
    | nil => intro t; simp
    | cons e rest ih =>
        intro t
        refine (ih (t.enqueue e)).trans ?_
        rw [List.map_cons]
        exact ((enqueue_pending t e).append_right _).trans List.perm_middle.symm
  refine (hfold t.tsQueue { t with tsQueue := [] }).trans ?_
  rw [pending, pending, List.map_nil, List.append_nil]

theorem erase_pending (selects : Event κ → Bool) (t : Timer κ) :
    (t.erase selects).pending.Subperm t.pending := by
  unfold erase
  split
  · refine (List.subperm_append_right _).mpr ?_
    refine (((BinaryHeap.make_perm _).map Event.id).subperm).trans ?_
    exact (List.filter_sublist.map Event.id).subperm
  · exact .refl _

theorem Rearranged.pending (h : Rearranged t t') : t'.pending.Subperm t.pending := by
  cases h with
  | same h => rw [h.pending]
  | moved => exact (moveEvents_pending t).subperm
  | erased selects => exact erase_pending selects t

theorem Scheduled.pending (h : Scheduled e t t') : t'.pending.Perm (e.id :: t.pending) := by
  cases h with
  | queued h =>
      rw [← h.pending]
      exact enqueue_pending _ e
  | waiting =>
      rw [Timer.pending, Timer.pending, List.map_append, List.map_singleton, ← List.append_assoc]
      exact List.perm_append_singleton _ _

theorem due_eq_some : t.due = some e ↔ t.eventQueue[0]? = some e ∧ e.time ≤ t.executedTicks := by
  unfold due
  rw [Option.filter_eq_some_iff]
  simp

theorem popEvent_toList (h : t.due = some e) :
    t.eventQueue.toList.Perm (e :: t.popEvent.eventQueue.toList) :=
  BinaryHeap.pop_perm (due_eq_some.mp h).1

theorem popEvent_pending (h : t.due = some e) : t.pending.Perm (e.id :: t.popEvent.pending) :=
  ((popEvent_toList h).map Event.id).append_right _

/-! ### The heap -/

/-- The event queue is a heap. -/
def Heaped (t : Timer κ) : Prop := BinaryHeap.IsHeap Event.key t.eventQueue

theorem Heaped.enqueue (h : t.Heaped) (e : Event κ) : (t.enqueue e).Heaped := h.push _

theorem Heaped.moveEvents (h : t.Heaped) : t.moveEvents.Heaped := by
  have hfold : ∀ (events : List (Event κ)) (t : Timer κ), t.Heaped →
      (events.foldl Timer.enqueue t).Heaped := by
    intro events
    induction events with
    | nil => exact fun t h => h
    | cons e rest ih => exact fun t h => ih _ (h.enqueue e)
  exact hfold t.tsQueue _ h

theorem Heaped.erase (h : t.Heaped) (selects : Event κ → Bool) : (t.erase selects).Heaped := by
  unfold Timer.erase
  split
  · exact BinaryHeap.isHeap_make _ _
  · exact h

theorem Same.heaped (h : Same t t') (ht : t.Heaped) : t'.Heaped := by
  rwa [Heaped, h.eventQueue]

theorem Rearranged.heaped (h : Rearranged t t') (ht : t.Heaped) : t'.Heaped := by
  cases h with
  | same h => exact h.heaped ht
  | moved => exact ht.moveEvents
  | erased selects => exact ht.erase selects

theorem Scheduled.heaped (h : Scheduled e t t') (ht : t.Heaped) : t'.Heaped := by
  cases h with
  | queued h => exact (h.heaped ht).enqueue e
  | waiting => exact ht

theorem Heaped.popEvent (h : t.Heaped) : t.popEvent.Heaped := h.pop

theorem Heaped.lt_of_due (h : t.Heaped) (hdue : t.due = none) (he : e ∈ t.eventQueue) :
    t.executedTicks < e.time := by
  by_contra hle
  cases hfront : t.eventQueue[0]? with
  | none =>
      rw [Array.getElem?_eq_none_iff, Nat.le_zero, Array.size_eq_zero_iff] at hfront
      rw [hfront] at he
      cases Array.not_mem_empty _ he
  | some front =>
      have hfirst : front.key ≤ e.key := h.front_le hfront he
      have hdue' : t.due = some front := by
        refine due_eq_some.mpr ⟨hfront, ?_⟩
        rcases Event.key_le.mp hfirst with hlt | ⟨heq, -⟩
        · omega
        · omega
      rw [hdue] at hdue'
      cases hdue'

end

end Timer

/-! ## Runs -/

variable [DecidableEq ι] [DecidableEq κ]

/-- The calls on the timers. -/
inductive Call (ι κ : Type) where
  | scheduleEvent (cyclesIntoFuture : Int) (type : κ) (userData : Nat) (coreId : Option ι)
      (threadSafeMode : Bool)
  | unscheduleEvent (type : κ) (userData : Nat)
  | removeEvent (type : κ)
  | moveEvents (core : ι)
  | addTicks (core : ι) (ticks : Nat)
  | setNextSlice (core : ι) (maxSlice : Int)
  | idle (core : ι)
  | setCurrentTimer (core : ι)
  | updateClockSpeed (scale : Nat → Nat)

/-- What a call does; `id` is the number of the next event. -/
def Call.run (id : Nat) (s : Timing ι κ) : Call ι κ → Timing ι κ
  | .scheduleEvent cycles type userData coreId threadSafeMode =>
      s.scheduleEvent cycles type userData coreId threadSafeMode id
  | .unscheduleEvent type userData => s.unscheduleEvent type userData
  | .removeEvent type => s.removeEvent type
  | .moveEvents core => s.on core Timer.moveEvents
  | .addTicks core ticks => s.on core (Timer.addTicks · ticks)
  | .setNextSlice core maxSlice => s.on core (Timer.setNextSlice · maxSlice)
  | .idle core => s.on core Timer.idle
  | .setCurrentTimer core => s.setCurrentTimer core
  | .updateClockSpeed scale => s.updateClockSpeed scale

/-- An event that left a queue. -/
structure Dispatch (ι κ : Type) where
  core : ι
  event : Event κ
  executedTicks : Int
  advance : Nat

structure TimingState (ι κ : Type) where
  timing : Timing ι κ
  advancing : Option ι := none
  advances : Nat := 0
  nextId : Nat := 0
  dispatched : List (Dispatch ι κ) := []

inductive Action (ι κ : Type) where
  | call (c : Call ι κ)
  | beginAdvance (core : ι)
  | dispatch
  | endAdvance

namespace TimingState

/-- Take the event that is due for the loop of the running `Advance`. -/
def take (s : TimingState ι κ) (core : ι) (e : Event κ) : TimingState ι κ :=
  { s with
    timing := s.timing.on core Timer.popEvent
    dispatched := ⟨core, e, (s.timing.timers core).executedTicks, s.advances⟩ :: s.dispatched }

/-- One step; `none` where the action is not possible. `Advance` is not nested. -/
def next (s : TimingState ι κ) : Action ι κ → Option (TimingState ι κ)
  | .call c => some { s with timing := c.run s.nextId s.timing, nextId := s.nextId + 1 }
  | .beginAdvance core =>
      match s.advancing with
      | none => some { s with
          timing := s.timing.on core Timer.beginAdvance
          advancing := some core
          advances := s.advances + 1 }
      | some _ => none
  | .dispatch => do
      let core ← s.advancing
      let e ← (s.timing.timers core).due
      pure (s.take core e)
  | .endAdvance => do
      let core ← s.advancing
      match (s.timing.timers core).due with
      | none => some { s with timing := s.timing.on core Timer.endAdvance, advancing := none }
      | some _ => none

end TimingState

/-- The states that runs from a fresh timing system reach, if each step meets a condition. -/
inductive TimingReachable (P : TimingState ι κ → Action ι κ → Prop) : TimingState ι κ → Prop
  | start (baseTicks : Int) (scale : Nat → Nat) (core : ι) :
      -2 ^ 63 ≤ baseTicks → baseTicks < 2 ^ 63 →
      TimingReachable P { timing := .initial baseTicks scale core }
  | step {s t : TimingState ι κ} (a : Action ι κ) :
      TimingReachable P s → P s a → s.next a = some t → TimingReachable P t

/-! ## What a call does -/

/-- The timer that `ScheduleEvent` chooses. -/
def Timing.target (s : Timing ι κ) (coreId : Option ι) : ι := coreId.getD s.currentTimer

/-- The event that a call schedules, and for which core. -/
def Call.scheduled (id : Nat) (s : Timing ι κ) : Call ι κ → Option (ι × Event κ)
  | .scheduleEvent cycles type userData coreId threadSafeMode =>
      if s.eventQueueLocked then none
      else some (s.target coreId, Timing.eventFor (s.timers (s.target coreId))
        (if threadSafeMode then Timing.safeCycles cycles else cycles) type userData id)
  | _ => none

section Effects

variable {c : Call ι κ} {id : Nat} {s : Timing ι κ} {i j : ι} {e : Event κ}

omit [DecidableEq κ] in
theorem Timing.on_self (s : Timing ι κ) (i : ι) (f : Timer κ → Timer κ) :
    (s.on i f).timers i = f (s.timers i) := Function.update_self i _ _

omit [DecidableEq κ] in
theorem Timing.on_of_ne (s : Timing ι κ) (f : Timer κ → Timer κ) (h : j ≠ i) :
    (s.on i f).timers j = s.timers j := Function.update_of_ne h _ _

omit [DecidableEq κ] in
theorem rearranged_on (f : Timer κ → Timer κ) (h : (s.timers i).Rearranged (f (s.timers i)))
    (j : ι) : (s.timers j).Rearranged ((s.on i f).timers j) := by
  by_cases hj : j = i
  · rw [hj, Timing.on_self]
    exact h
  · rw [Timing.on_of_ne s f hj]
    exact .same (.refl _)

theorem Call.run_of_none (h : c.scheduled id s = none) (i : ι) :
    (s.timers i).Rearranged ((c.run id s).timers i) := by
  cases c with
  | scheduleEvent cycles type userData coreId threadSafeMode =>
      have hlocked : s.eventQueueLocked = true := by
        by_contra hopen
        rw [scheduled, if_neg hopen] at h
        cases h
      rw [run, Timing.scheduleEvent, if_pos hlocked]
      exact .same (.refl _)
  | unscheduleEvent type userData =>
      rw [run, Timing.unscheduleEvent]
      split
      · exact .same (.refl _)
      · exact .erased _
  | removeEvent type =>
      rw [run, Timing.removeEvent]
      split
      · exact .same (.refl _)
      · exact .erased _
  | moveEvents core => exact rearranged_on _ .moved i
  | addTicks core ticks => exact rearranged_on (Timer.addTicks · ticks) (.same ⟨rfl, rfl, rfl, rfl, rfl⟩) i
  | setNextSlice core maxSlice => exact rearranged_on (Timer.setNextSlice · maxSlice) (.same ⟨rfl, rfl, rfl, rfl, rfl⟩) i
  | idle core => exact rearranged_on Timer.idle (.same ⟨rfl, rfl, rfl, rfl, rfl⟩) i
  | setCurrentTimer core => exact .same (.refl _)
  | updateClockSpeed scale => exact .same ⟨rfl, rfl, rfl, rfl, rfl⟩

theorem Call.run_of_some (h : c.scheduled id s = some (i, e)) :
    e.id = id ∧ (s.timers i).Scheduled e ((c.run id s).timers i) ∧
      ∀ j, j ≠ i → (c.run id s).timers j = s.timers j := by
  cases c with
  | scheduleEvent cycles type userData coreId threadSafeMode =>
      rw [scheduled] at h
      by_cases hlocked : s.eventQueueLocked = true
      · rw [if_pos hlocked] at h
        cases h
      · rw [if_neg hlocked] at h
        obtain ⟨rfl, rfl⟩ := Prod.mk.inj (Option.some.inj h)
        refine ⟨rfl, ?_⟩
        rw [run, Timing.scheduleEvent, if_neg hlocked]
        dsimp only
        rw [← Timing.target]
        by_cases hsafe : threadSafeMode = true
        · rw [if_pos hsafe, if_pos hsafe, Timing.on_self]
          exact ⟨.waiting, fun j hj => Timing.on_of_ne s _ hj⟩
        · rw [if_neg hsafe, if_neg hsafe]
          by_cases hcurrent : s.currentTimer = s.target coreId
          · rw [if_pos hcurrent, Timing.on_self]
            refine ⟨?_, fun j hj => Timing.on_of_ne s _ hj⟩
            by_cases hsane : (s.timers (s.target coreId)).isTimerSane = true
            · rw [if_pos hsane]
              exact .queued (.refl _)
            · rw [if_neg hsane]
              exact .queued (Timer.forceExceptionCheck_same _ _)
          · rw [if_neg hcurrent, Timing.on_self]
            exact ⟨.waiting, fun j hj => Timing.on_of_ne s _ hj⟩
  | unscheduleEvent type userData => cases h
  | removeEvent type => cases h
  | moveEvents core => cases h
  | addTicks core ticks => cases h
  | setNextSlice core maxSlice => cases h
  | idle core => cases h
  | setCurrentTimer core => cases h
  | updateClockSpeed scale => cases h

end Effects

/-! ## Steps -/

section Steps

variable {s t : TimingState ι κ} {a : Action ι κ} {P : TimingState ι κ → Action ι κ → Prop}

/-- What one step can be. -/
inductive TimingStep (s : TimingState ι κ) : Action ι κ → TimingState ι κ → Prop
  | quiet (c : Call ι κ) : c.scheduled s.nextId s.timing = none →
      TimingStep s (.call c) { s with timing := c.run s.nextId s.timing, nextId := s.nextId + 1 }
  | schedule (c : Call ι κ) (i : ι) (e : Event κ) :
      c.scheduled s.nextId s.timing = some (i, e) →
      TimingStep s (.call c) { s with timing := c.run s.nextId s.timing, nextId := s.nextId + 1 }
  | beginAdvance (i : ι) : s.advancing = none →
      TimingStep s (.beginAdvance i) { s with
        timing := s.timing.on i Timer.beginAdvance
        advancing := some i
        advances := s.advances + 1 }
  | dispatch (i : ι) (e : Event κ) : s.advancing = some i → (s.timing.timers i).due = some e →
      TimingStep s .dispatch (s.take i e)
  | endAdvance (i : ι) : s.advancing = some i → (s.timing.timers i).due = none →
      TimingStep s .endAdvance
        { s with timing := s.timing.on i Timer.endAdvance, advancing := none }

theorem TimingState.next_cases (h : s.next a = some t) : TimingStep s a t := by
  cases a with
  | call c =>
      cases h
      cases hscheduled : c.scheduled s.nextId s.timing with
      | none => exact .quiet c hscheduled
      | some p => exact .schedule c p.1 p.2 hscheduled
  | beginAdvance core =>
      rw [next] at h
      cases hadvancing : s.advancing with
      | none =>
          rw [hadvancing] at h
          cases h
          exact .beginAdvance core hadvancing
      | some i =>
          rw [hadvancing] at h
          cases h
  | dispatch =>
      obtain ⟨core, hcore, h⟩ := Option.bind_eq_some_iff.mp h
      obtain ⟨e, he, h⟩ := Option.bind_eq_some_iff.mp h
      cases h
      exact .dispatch core e hcore he
  | endAdvance =>
      obtain ⟨core, hcore, h⟩ := Option.bind_eq_some_iff.mp h
      cases hdue : (s.timing.timers core).due with
      | none =>
          rw [hdue] at h
          cases h
          exact .endAdvance core hcore hdue
      | some e =>
          rw [hdue] at h
          cases h

/-- What holds at the start and is kept by every step that meets the condition holds in every
state reached. -/
theorem TimingReachable.invariant {Q : TimingState ι κ → Prop}
    (hstart : ∀ baseTicks scale core, -2 ^ 63 ≤ baseTicks → baseTicks < 2 ^ 63 →
      Q { timing := .initial baseTicks scale core })
    (hstep : ∀ s a t, Q s → P s a → TimingStep s a t → Q t) (h : TimingReachable P s) : Q s := by
  induction h with
  | start baseTicks scale core hlow hhigh => exact hstart baseTicks scale core hlow hhigh
  | step a _ hP hnext ih => exact hstep _ a _ ih hP (TimingState.next_cases hnext)

end Steps

end Cytrus.Core
