import Cytrus.Core.EventDispatch

/-!
# Kernel timers

A timer with an interval schedules itself again each time it fires, relative to
how late it was. `Advance` is modelled here as a loop with a bound on its
rounds, so that whether it returns can be stated.

## Implementation notes

A timer is named by its callback number. What a signal does to the threads that
wait for the timer is part of the thread model. The callbacks of other event
types schedule nothing here.
-/

namespace Cytrus.Kernel

open Cytrus.Core

/-- `std::numeric_limits<s64>::max() / BASE_CLOCK_RATE_ARM11`. -/
def maxValueToMultiply : Int := (2 ^ 63 - 1) / baseClockRateArm11

/-- `nsToCycles(s64)`; the products are taken in `u64`. -/
def nsToCycles (ns : Int) : Int :=
  if maxValueToMultiply < ns.tdiv 1000000000 then 2 ^ 63 - 1
  else if maxValueToMultiply < ns then
    wrapS64 (wrapU64 (baseClockRateArm11 * ns.tdiv 1000000000))
  else wrapS64 (wrapU64 (baseClockRateArm11 * ns) / 1000000000)

structure Timer where
  initialDelay : Int := 0
  intervalDelay : Int := 0
  deriving DecidableEq, Repr

/-- The timing system and the timers by callback number. -/
structure TimerSystem (ι κ : Type) where
  timing : Timing ι κ
  nextId : Nat := 0
  timers : Nat → Timer := fun _ => {}

variable {ι κ : Type} [DecidableEq ι] [DecidableEq κ]

/-- `cycles_late`, the argument of a callback. -/
def cyclesLate (executedTicks time : Int) : Int := wrapInt (wrapS64 (executedTicks - time))

namespace TimerSystem

variable (eventType : κ)

/-- `ScheduleEvent` on the current core for a timer. -/
def schedule (s : TimerSystem ι κ) (callbackId : Nat) (cycles : Int) : TimerSystem ι κ :=
  { s with
    timing := s.timing.scheduleEvent cycles eventType callbackId none false s.nextId
    nextId := s.nextId + 1 }

def signal (s : TimerSystem ι κ) (callbackId : Nat) (late : Int) : TimerSystem ι κ :=
  if (s.timers callbackId).intervalDelay ≠ 0 then
    s.schedule eventType callbackId
      (wrapS64 (nsToCycles (s.timers callbackId).intervalDelay - late))
  else s

def cancel (s : TimerSystem ι κ) (callbackId : Nat) : TimerSystem ι κ :=
  { s with timing := s.timing.unscheduleEvent eventType callbackId }

/-- `Timer::Set`. -/
def set (s : TimerSystem ι κ) (callbackId : Nat) (initial interval : Int) : TimerSystem ι κ :=
  let s := s.cancel eventType callbackId
  let s := { s with timers := Function.update s.timers callbackId ⟨initial, interval⟩ }
  if initial = 0 then s.signal eventType callbackId 0
  else s.schedule eventType callbackId (nsToCycles initial)

/-- `SVC::SetTimer`; `none` is its error code. -/
def setTimer (s : TimerSystem ι κ) (callbackId : Nat) (initial interval : Int) :
    Option (TimerSystem ι κ) :=
  if 0 ≤ initial ∧ 0 ≤ interval then some (s.set eventType callbackId initial interval) else none

/-- One round of the loop of `Advance`. -/
def fire (s : TimerSystem ι κ) (core : ι) (e : Event κ) : TimerSystem ι κ :=
  let late := cyclesLate (s.timing.timers core).executedTicks e.time
  let s := { s with timing := s.timing.on core Core.Timer.popEvent }
  if e.type = eventType then s.signal eventType e.userData late else s

/-- The loop of `Advance`; `none` after too many rounds. -/
def drain (core : ι) : Nat → TimerSystem ι κ → Option (TimerSystem ι κ)
  | 0, s => if (s.timing.timers core).due = none then some s else none
  | fuel + 1, s =>
      match (s.timing.timers core).due with
      | none => some s
      | some e => drain core fuel (s.fire eventType core e)

def advance (core : ι) (fuel : Nat) (s : TimerSystem ι κ) : Option (TimerSystem ι κ) :=
  (drain eventType core fuel
      { s with timing := s.timing.on core Core.Timer.beginAdvance }).map fun s =>
    { s with timing := s.timing.on core Core.Timer.endAdvance }

end TimerSystem

/-- The states that timers can be in, with any calls of other components on the timing system. -/
inductive Configured (eventType : κ) : TimerSystem ι κ → Prop
  | start (baseTicks : Int) (scale : Nat → Nat) (core : ι) :
      -2 ^ 63 ≤ baseTicks → baseTicks < 2 ^ 63 →
      Configured eventType { timing := .initial baseTicks scale core }
  | setTimer {s t} (callbackId : Nat) (initial interval : Int) : Configured eventType s →
      initial < 2 ^ 63 → interval < 2 ^ 63 →
      s.setTimer eventType callbackId initial interval = some t → Configured eventType t
  | cancelTimer {s} (callbackId : Nat) : Configured eventType s →
      Configured eventType (s.cancel eventType callbackId)
  | call {s} (c : Call ι κ) : Configured eventType s →
      Configured eventType
        { s with timing := c.run s.nextId s.timing, nextId := s.nextId + 1 }
  | advance {s t} (core : ι) (fuel : Nat) : Configured eventType s →
      s.advance eventType core fuel = some t → Configured eventType t

end Cytrus.Kernel
