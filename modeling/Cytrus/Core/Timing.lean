import Cytrus.Support.BinaryHeap
import Mathlib.Data.Prod.Lex

/-!
# Timing

Every core has a timer with a heap of events, a side queue that other threads
and other cores push to, and the bookkeeping of its current slice.

## Implementation notes

Signed 64-bit values are integers in two's complement range; every operation on
them wraps. `id` numbers the calls of `ScheduleEvent` and is read by no
operation. `cpuClockScale` is the scaling of a tick count as a function.
-/

namespace Cytrus.Core

open Support

/-- Conversion to `s64`. -/
def wrapS64 (x : Int) : Int := Int.bmod x (2 ^ 64)

/-- Conversion to `int`. -/
def wrapInt (x : Int) : Int := Int.bmod x (2 ^ 32)

/-- Conversion to `u64`. -/
def wrapU64 (x : Int) : Nat := (x % 2 ^ 64).toNat

def baseClockRateArm11 : Nat := 268111856

def maxSliceLength : Int := baseClockRateArm11 / 234

variable {ι κ : Type}

structure Event (κ : Type) where
  time : Int
  fifoOrder : Nat
  userData : Nat
  type : κ
  id : Nat
  deriving DecidableEq, Repr

/-- What events are compared by. -/
def Event.key (e : Event κ) : ℤ ×ₗ ℕ := toLex (e.time, e.fifoOrder)

theorem Event.key_le {e f : Event κ} :
    e.key ≤ f.key ↔ e.time < f.time ∨ e.time = f.time ∧ e.fifoOrder ≤ f.fifoOrder :=
  Prod.Lex.le_iff

structure Timer (κ : Type) where
  eventQueue : Array (Event κ) := #[]
  eventFifoId : Nat := 0
  tsQueue : List (Event κ) := []
  isTimerSane : Bool := true
  sliceLength : Int := maxSliceLength
  downcount : Int := maxSliceLength
  executedTicks : Int := 0
  idledCycles : Nat := 0
  cpuClockScale : Nat → Nat := id

namespace Timer

def getTicks (t : Timer κ) : Nat :=
  wrapU64 (t.executedTicks + if t.isTimerSane then 0 else t.sliceLength - t.downcount)

def addTicks (t : Timer κ) (ticks : Nat) : Timer κ :=
  { t with downcount := wrapS64 (t.downcount - t.cpuClockScale ticks) }

def forceExceptionCheck (t : Timer κ) (cycles : Int) : Timer κ :=
  if max 0 cycles < t.downcount then
    { t with
      sliceLength := wrapS64 (t.sliceLength - (t.downcount - max 0 cycles))
      downcount := max 0 cycles }
  else t

/-- Give an event the next number and push it to the heap. -/
def enqueue (t : Timer κ) (e : Event κ) : Timer κ :=
  { t with
    eventQueue := BinaryHeap.push Event.key t.eventQueue { e with fifoOrder := t.eventFifoId }
    eventFifoId := (t.eventFifoId + 1) % 2 ^ 64 }

def moveEvents (t : Timer κ) : Timer κ := t.tsQueue.foldl enqueue { t with tsQueue := [] }

/-- Erase the events that `matches` selects; the heap is only made anew if there is one. -/
def erase (selects : Event κ → Bool) (t : Timer κ) : Timer κ :=
  if t.eventQueue.toList.any selects then
    { t with
      eventQueue := BinaryHeap.make Event.key
        (t.eventQueue.toList.filter fun e => !selects e).toArray }
  else t

/-- `GetMaxSliceLength`; `none` is its assertion. -/
def getMaxSliceLength (t : Timer κ) : Option Int :=
  match t.eventQueue[0]? with
  | some next => if 0 < wrapS64 (next.time - t.executedTicks) then
      some (wrapS64 (next.time - t.executedTicks)) else none
  | none => some maxSliceLength

def setNextSlice (t : Timer κ) (maxSlice : Int) : Timer κ :=
  let slice := match t.eventQueue[0]? with
    | some front => wrapInt (min (wrapS64 (front.time - t.executedTicks)) maxSlice)
    | none => maxSlice
  { t with sliceLength := slice, downcount := slice }

def idle (t : Timer κ) : Timer κ :=
  { t with idledCycles := wrapU64 (t.idledCycles + t.downcount), downcount := 0 }

/-! ### The parts of `Advance` -/

/-- `Advance` up to its loop. -/
def beginAdvance (t : Timer κ) : Timer κ :=
  let t := t.moveEvents
  { t with
    executedTicks := wrapS64 (t.executedTicks + wrapS64 (t.sliceLength - t.downcount))
    idledCycles := 0
    sliceLength := 0
    downcount := 0
    isTimerSane := true }

/-- The event that the next round of the loop takes. -/
def due (t : Timer κ) : Option (Event κ) :=
  (t.eventQueue[0]?).filter fun front => front.time ≤ t.executedTicks

def popEvent (t : Timer κ) : Timer κ :=
  { t with eventQueue := BinaryHeap.pop Event.key t.eventQueue }

/-- `Advance` from its loop on. -/
def endAdvance (t : Timer κ) : Timer κ := { t with isTimerSane := false }

end Timer

/-- The timers by core. -/
structure Timing (ι κ : Type) where
  timers : ι → Timer κ
  currentTimer : ι
  eventQueueLocked : Bool := false

namespace Timing

variable [DecidableEq ι] [DecidableEq κ]

/-- Change the timer of one core. -/
def on (s : Timing ι κ) (i : ι) (f : Timer κ → Timer κ) : Timing ι κ :=
  { s with timers := Function.update s.timers i (f (s.timers i)) }

/-- The minimum for events that other threads schedule. -/
def safeCycles (cycles : Int) : Int := max (maxSliceLength * 2) cycles

/-- The event that `ScheduleEvent` makes for a timer. -/
def eventFor (t : Timer κ) (cyclesIntoFuture : Int) (type : κ) (userData id : Nat) : Event κ :=
  ⟨wrapS64 (t.getTicks + cyclesIntoFuture), 0, userData, type, id⟩

/-- `ScheduleEvent`; `coreId` is `none` for the default. -/
def scheduleEvent (s : Timing ι κ) (cyclesIntoFuture : Int) (type : κ) (userData : Nat)
    (coreId : Option ι) (threadSafeMode : Bool) (id : Nat) : Timing ι κ :=
  if s.eventQueueLocked then s
  else
    let timer := coreId.getD s.currentTimer
    if threadSafeMode then
      s.on timer fun t =>
        { t with tsQueue := t.tsQueue ++
            [eventFor t (safeCycles cyclesIntoFuture) type userData id] }
    else if s.currentTimer = timer then
      s.on timer fun t =>
        let e := eventFor t cyclesIntoFuture type userData id
        if t.isTimerSane then t.enqueue e
        else (t.forceExceptionCheck cyclesIntoFuture).enqueue e
    else
      s.on timer fun t =>
        { t with tsQueue := t.tsQueue ++ [eventFor t cyclesIntoFuture type userData id] }

def unscheduleEvent (s : Timing ι κ) (type : κ) (userData : Nat) : Timing ι κ :=
  if s.eventQueueLocked then s
  else { s with timers := fun i =>
    (s.timers i).erase fun e => decide (e.type = type ∧ e.userData = userData) }

def removeEvent (s : Timing ι κ) (type : κ) : Timing ι κ :=
  if s.eventQueueLocked then s
  else { s with timers := fun i => (s.timers i).erase fun e => decide (e.type = type) }

def setCurrentTimer (s : Timing ι κ) (coreId : ι) : Timing ι κ := { s with currentTimer := coreId }

def updateClockSpeed (s : Timing ι κ) (scale : Nat → Nat) : Timing ι κ :=
  { s with timers := fun i => { s.timers i with cpuClockScale := scale } }

/-- `Timing::Timing`. -/
def initial (baseTicks : Int) (scale : Nat → Nat) (core : ι) : Timing ι κ :=
  { timers := fun _ => { executedTicks := baseTicks, cpuClockScale := scale }
    currentTimer := core }

end Timing

/-! ## Wrapping -/

theorem wrapS64_eq {x : Int} (h : -2 ^ 63 ≤ x) (h' : x < 2 ^ 63) : wrapS64 x = x := by
  unfold wrapS64
  rw [Int.bmod_eq_of_le (by omega) (by omega)]

theorem le_wrapS64 (x : Int) : -2 ^ 63 ≤ wrapS64 x := by
  have := Int.le_bmod (x := x) (m := 2 ^ 64) (by decide)
  unfold wrapS64
  omega

theorem wrapS64_lt (x : Int) : wrapS64 x < 2 ^ 63 := by
  have := Int.bmod_lt (x := x) (m := 2 ^ 64) (by decide)
  unfold wrapS64
  omega

theorem wrapS64_congr {x y : Int} (h : x % 2 ^ 64 = y % 2 ^ 64) : wrapS64 x = wrapS64 y := by
  unfold wrapS64
  rw [← Int.emod_bmod (x := x), ← Int.emod_bmod (x := y)]
  exact congrArg (fun z => Int.bmod z (2 ^ 64)) h

theorem wrapS64_emod (x : Int) : wrapS64 x % 2 ^ 64 = x % 2 ^ 64 := by
  unfold wrapS64
  exact Int.bmod_emod

theorem wrapU64_cast (x : Int) : (wrapU64 x : Int) = x % 2 ^ 64 := by
  unfold wrapU64
  exact Int.toNat_of_nonneg (Int.emod_nonneg x (by decide))

end Cytrus.Core
