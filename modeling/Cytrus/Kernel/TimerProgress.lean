import Cytrus.Core.DispatchOrder
import Cytrus.Kernel.Timer

/-!
# Whether `Advance` returns

A due timer is taken from the heap and put back with a later time, until its
time lies ahead. It never does if its interval is less than a cycle.
-/

namespace Cytrus.Kernel

open Cytrus.Core Support

/-! ## Conversions -/

theorem wrapInt_emod (x : Int) : wrapInt x % 2 ^ 32 = x % 2 ^ 32 := by
  unfold wrapInt
  exact Int.bmod_emod

theorem wrapInt_congr {x y : Int} (h : x % 2 ^ 32 = y % 2 ^ 32) : wrapInt x = wrapInt y := by
  unfold wrapInt
  rw [← Int.emod_bmod (x := x), ← Int.emod_bmod (x := y)]
  exact congrArg (fun z => Int.bmod z (2 ^ 32)) h

theorem wrapInt_eq {x : Int} (h : -2 ^ 31 ≤ x) (h' : x < 2 ^ 31) : wrapInt x = x := by
  unfold wrapInt
  rw [Int.bmod_eq_of_le (by omega) (by omega)]

theorem le_wrapInt (x : Int) : -2 ^ 31 ≤ wrapInt x := by
  have := Int.le_bmod (x := x) (m := 2 ^ 32) (by decide)
  unfold wrapInt
  omega

theorem wrapInt_lt (x : Int) : wrapInt x < 2 ^ 31 := by
  have := Int.bmod_lt (x := x) (m := 2 ^ 32) (by decide)
  unfold wrapInt
  omega

theorem cyclesLate_eq (executedTicks time : Int) :
    cyclesLate executedTicks time = wrapInt (executedTicks - time) := by
  refine wrapInt_congr ?_
  have hwrap := wrapS64_emod (executedTicks - time)
  omega

theorem nsToCycles_bounds {ns : Int} (h : 0 ≤ ns) (h' : ns < 2 ^ 63) :
    0 ≤ nsToCycles ns ∧ nsToCycles ns < 2 ^ 62 ∧ (0 < nsToCycles ns ↔ 3 < ns) := by
  have hmax : maxValueToMultiply = 34401209161 := by decide
  have hrate : (baseClockRateArm11 : Int) = 268111856 := rfl
  have hdiv : ns.tdiv 1000000000 = ns / 1000000000 := Int.tdiv_eq_ediv_of_nonneg h
  unfold nsToCycles
  rw [hmax, hdiv, if_neg (by omega), hrate]
  by_cases hbig : 34401209161 < ns
  · have hproduct : (wrapU64 (268111856 * (ns / 1000000000)) : Int) =
        268111856 * (ns / 1000000000) := by
      rw [wrapU64_cast]
      omega
    rw [if_pos hbig, hproduct, wrapS64_eq (by omega) (by omega)]
    omega
  · have hproduct : (wrapU64 (268111856 * ns) : Int) = 268111856 * ns := by
      rw [wrapU64_cast]
      omega
    rw [if_neg hbig, hproduct, wrapS64_eq (by omega) (by omega)]
    omega

/-! ## One timer -/

/-- The time a timer gets when it fires. -/
def retime (ticks cycles time : Int) : Int := wrapS64 (ticks + cycles - wrapInt (ticks - time))

/-- Firing often enough, a timer gets a time ahead of the ticks. -/
def Settles (ticks cycles time : Int) : Prop :=
  ∃ n : Nat, ticks < wrapS64 (ticks + cycles - wrapInt (ticks - time - n * cycles))

/-- An event leaves the loop after at most so many rounds. -/
inductive Ends (ticks cycles : Int) (repeats : Prop) : Int → Nat → Prop
  | later {time} (n : Nat) : ticks < time → Ends ticks cycles repeats time n
  | once {time} (n : Nat) : ¬ repeats → Ends ticks cycles repeats time (n + 1)
  | again {time} (n : Nat) : repeats → Ends ticks cycles repeats (retime ticks cycles time) n →
      Ends ticks cycles repeats time (n + 1)

section OneTimer

variable {ticks cycles time : Int} {repeats : Prop}

theorem wrapInt_retime (ticks cycles time x : Int) :
    wrapInt (ticks - retime ticks cycles time - x) = wrapInt (ticks - time - (x + cycles)) := by
  refine wrapInt_congr ?_
  have hwide := wrapS64_emod (ticks + cycles - wrapInt (ticks - time))
  have hnarrow := wrapInt_emod (ticks - time)
  unfold retime
  omega

theorem settles_retime : Settles ticks cycles (retime ticks cycles time) ↔
    ∃ n : Nat, ticks < wrapS64 (ticks + cycles - wrapInt (ticks - time - (n + 1 : Nat) * cycles)) := by
  refine exists_congr fun n => ?_
  rw [wrapInt_retime, show (n * cycles + cycles : Int) = (n + 1 : Nat) * cycles by
    rw [Nat.cast_succ, add_mul, one_mul]]

/-- A timer that repeats leaves the loop if and only if its times settle. -/
theorem exists_ends_iff (hrepeats : repeats) :
    (∃ n, Ends ticks cycles repeats time n) ↔ ticks < time ∨ Settles ticks cycles time := by
  constructor
  · rintro ⟨n, h⟩
    induction h with
    | later n h => exact .inl h
    | once n h => exact absurd hrepeats h
    | again n _ _ ih =>
        rcases ih with hnext | hnext
        · refine .inr ⟨0, ?_⟩
          rwa [Nat.cast_zero, zero_mul, sub_zero]
        · obtain ⟨m, hm⟩ := settles_retime.mp hnext
          exact .inr ⟨m + 1, hm⟩
  · rintro (h | ⟨n, hn⟩)
    · exact ⟨0, .later 0 h⟩
    · induction n generalizing time with
      | zero =>
          rw [Nat.cast_zero, zero_mul, sub_zero] at hn
          exact ⟨1, .again 0 hrepeats (.later 0 hn)⟩
      | succ n ih =>
          have hnext : ticks < wrapS64 (ticks + cycles -
              wrapInt (ticks - retime ticks cycles time - n * cycles)) := by
            rw [wrapInt_retime, show (n * cycles + cycles : Int) = (n + 1 : Nat) * cycles by
              rw [Nat.cast_succ, add_mul, one_mul]]
            exact hn
          obtain ⟨m, hm⟩ := ih hnext
          exact ⟨m + 1, .again m hrepeats hm⟩

theorem settles_iff (hcycles : 0 ≤ cycles) (hlow : -2 ^ 63 + 2 ^ 31 ≤ ticks)
    (hhigh : ticks + cycles + 2 ^ 31 < 2 ^ 63) :
    Settles ticks cycles time ↔ 0 < cycles ∨ cyclesLate ticks time < 0 := by
  have hfits : ∀ x, wrapS64 (ticks + cycles - wrapInt x) = ticks + cycles - wrapInt x := by
    intro x
    have hmin := le_wrapInt x
    have hmax := wrapInt_lt x
    exact wrapS64_eq (by omega) (by omega)
  rw [cyclesLate_eq]
  unfold Settles
  constructor
  · rintro ⟨n, hn⟩
    rw [hfits] at hn
    by_cases hzero : cycles = 0
    · rw [hzero, mul_zero, sub_zero] at hn
      exact .inr (by omega)
    · exact .inl (by omega)
  · intro h
    by_cases hnegative : wrapInt (ticks - time) < cycles
    · refine ⟨0, ?_⟩
      rw [hfits, Nat.cast_zero, zero_mul, sub_zero]
      omega
    · have hpos : 0 < cycles := by omega
      have hmax := wrapInt_lt (ticks - time)
      have hrest := Int.emod_lt_of_pos (wrapInt (ticks - time)) hpos
      have hrest' := Int.emod_nonneg (wrapInt (ticks - time)) hpos.ne'
      have hquotient := Int.ediv_nonneg (a := wrapInt (ticks - time)) (b := cycles) (by omega)
        (by omega)
      have hdivision := Int.emod_add_mul_ediv (wrapInt (ticks - time)) cycles
      refine ⟨(wrapInt (ticks - time) / cycles).toNat, ?_⟩
      have hlast : wrapInt (ticks - time - (wrapInt (ticks - time) / cycles).toNat * cycles) =
          wrapInt (ticks - time) % cycles := by
        rw [Int.toNat_of_nonneg hquotient]
        have hmod : wrapInt (ticks - time) % cycles = wrapInt (ticks - time) -
            wrapInt (ticks - time) / cycles * cycles := by
          rw [mul_comm]
          omega
        calc wrapInt (ticks - time - wrapInt (ticks - time) / cycles * cycles)
            = wrapInt (wrapInt (ticks - time) - wrapInt (ticks - time) / cycles * cycles) := by
              refine wrapInt_congr ?_
              have hnarrow := wrapInt_emod (ticks - time)
              omega
          _ = wrapInt (ticks - time) % cycles := by
              rw [← hmod]
              exact wrapInt_eq (by omega) (by omega)
      rw [hfits, hlast]
      omega

end OneTimer

/-! ## The loop -/

variable {ι κ : Type} [DecidableEq ι] [DecidableEq κ]

namespace TimerSystem

variable {eventType : κ} {s t : TimerSystem ι κ} {core : ι} {e f : Event κ}

/-- Firing this event puts it back into the heap of the core. -/
def Repeats (eventType : κ) (s : TimerSystem ι κ) (core : ι) (e : Event κ) : Prop :=
  e.type = eventType ∧ (s.timers e.userData).intervalDelay ≠ 0 ∧
    s.timing.currentTimer = core ∧ s.timing.eventQueueLocked = false

/-- The interval of an event's timer in cycles. -/
def cycles (s : TimerSystem ι κ) (e : Event κ) : Int :=
  nsToCycles (s.timers e.userData).intervalDelay

/-- The time of the core. -/
def ticks (s : TimerSystem ι κ) (core : ι) : Int := (s.timing.timers core).executedTicks

/-- What stays the same while the loop of `Advance` runs. -/
structure SameSetting (core : ι) (s t : TimerSystem ι κ) : Prop where
  timers : t.timers = s.timers
  currentTimer : t.timing.currentTimer = s.timing.currentTimer
  eventQueueLocked : t.timing.eventQueueLocked = s.timing.eventQueueLocked
  ticks : t.ticks core = s.ticks core
  isTimerSane : (t.timing.timers core).isTimerSane = (s.timing.timers core).isTimerSane

omit [DecidableEq ι] [DecidableEq κ] in
theorem SameSetting.repeats (h : SameSetting core s t) :
    Repeats eventType t core e ↔ Repeats eventType s core e := by
  unfold Repeats
  rw [h.timers, h.currentTimer, h.eventQueueLocked]

omit [DecidableEq ι] [DecidableEq κ] in
theorem SameSetting.cycles (h : SameSetting core s t) : t.cycles e = s.cycles e := by
  unfold TimerSystem.cycles
  rw [h.timers]

/-- What one round does: the event leaves the heap, and a repeating one comes back with its next
time. -/
inductive Round (eventType : κ) (core : ι) (s : TimerSystem ι κ) (e : Event κ)
    (t : TimerSystem ι κ) : Prop
  | leaves : ¬ Repeats eventType s core e →
      (s.timing.timers core).eventQueue.toList.Perm
        (e :: (t.timing.timers core).eventQueue.toList) → Round eventType core s e t
  | returns (e' : Event κ) (rest : List (Event κ)) : Repeats eventType s core e →
      e'.time = retime (s.ticks core) (s.cycles e) e.time → e'.type = e.type →
      e'.userData = e.userData → (s.timing.timers core).eventQueue.toList.Perm (e :: rest) →
      (t.timing.timers core).eventQueue.toList.Perm (e' :: rest) → Round eventType core s e t

omit [DecidableEq κ] in
theorem scheduleEvent_current (s : Timing ι κ) (c : Int) (type : κ) (userData id : Nat)
    (hopen : s.eventQueueLocked = false) :
    s.scheduleEvent c type userData none false id = s.on s.currentTimer fun t =>
      if t.isTimerSane then t.enqueue (Timing.eventFor t c type userData id)
      else (t.forceExceptionCheck c).enqueue (Timing.eventFor t c type userData id) := by
  rw [Timing.scheduleEvent, if_neg (by rw [hopen]; decide)]
  dsimp only
  rw [if_neg Bool.false_ne_true, Option.getD_none, if_pos rfl]

omit [DecidableEq κ] in
/-- A call that only schedules leaves the setting and the other timers alone. -/
theorem signal_same (eventType : κ) (core : ι) (s : TimerSystem ι κ) (callbackId : Nat) (late : Int)
    (hother : (s.timers callbackId).intervalDelay ≠ 0 → s.timing.eventQueueLocked = false →
      s.timing.currentTimer ≠ core) :
    (s.signal eventType callbackId late).timing.timers core = s.timing.timers core := by
  unfold signal
  split
  · rename_i hinterval
    rw [schedule]
    dsimp only
    cases hlocked : s.timing.eventQueueLocked with
    | true => rw [Timing.scheduleEvent, if_pos hlocked]
    | false =>
        rw [scheduleEvent_current _ _ _ _ _ hlocked,
          Timing.on_of_ne _ _ (hother hinterval hlocked).symm]
  · rfl

omit [DecidableEq κ] in
theorem signal_setting (eventType : κ) (s : TimerSystem ι κ) (callbackId : Nat) (late : Int) :
    (s.signal eventType callbackId late).timers = s.timers ∧
      (s.signal eventType callbackId late).timing.currentTimer = s.timing.currentTimer ∧
      (s.signal eventType callbackId late).timing.eventQueueLocked =
        s.timing.eventQueueLocked := by
  unfold signal
  split
  · rw [schedule]
    dsimp only
    cases hlocked : s.timing.eventQueueLocked with
    | true =>
        rw [Timing.scheduleEvent, if_pos hlocked]
        exact ⟨rfl, rfl, hlocked⟩
    | false =>
        rw [scheduleEvent_current _ _ _ _ _ hlocked]
        exact ⟨rfl, rfl, hlocked⟩
  · exact ⟨rfl, rfl, rfl⟩

omit [DecidableEq κ] in
theorem signal_repeats (eventType : κ) (s : TimerSystem ι κ) (callbackId : Nat) (late : Int)
    (hinterval : (s.timers callbackId).intervalDelay ≠ 0)
    (hopen : s.timing.eventQueueLocked = false) (hcurrent : s.timing.currentTimer = core)
    (hsane : (s.timing.timers core).isTimerSane = true) :
    (s.signal eventType callbackId late).timing.timers core =
      (s.timing.timers core).enqueue (Timing.eventFor (s.timing.timers core)
        (wrapS64 (nsToCycles (s.timers callbackId).intervalDelay - late)) eventType callbackId
        s.nextId) := by
  unfold signal
  rw [if_pos hinterval, schedule]
  dsimp only
  rw [scheduleEvent_current _ _ _ _ _ hopen, hcurrent, Timing.on_self, if_pos hsane]

omit [DecidableEq ι] [DecidableEq κ] in
theorem eventFor_retime {t : Core.Timer κ} (hsane : t.isTimerSane = true) (k time : Int) (type : κ)
    (userData id : Nat) :
    (Timing.eventFor t (wrapS64 (k - cyclesLate t.executedTicks time)) type userData id).time =
      retime t.executedTicks k time := by
  rw [Timing.eventFor, retime, cyclesLate_eq]
  dsimp only
  refine wrapS64_congr ?_
  have hticks := wrapU64_cast (t.executedTicks + 0)
  have hwrap := wrapS64_emod (k - wrapInt (t.executedTicks - time))
  rw [Core.Timer.getTicks, if_pos hsane]
  omega

theorem fire_round (eventType : κ) (hsane : (s.timing.timers core).isTimerSane = true)
    (hdue : (s.timing.timers core).due = some e) :
    Round eventType core s e (s.fire eventType core e) := by
  have hpop := Core.Timer.popEvent_toList hdue
  have hself := Timing.on_self s.timing core Core.Timer.popEvent
  unfold fire
  dsimp only
  by_cases htype : e.type = eventType
  · rw [if_pos htype]
    by_cases hrepeats : Repeats eventType s core e
    · obtain ⟨-, hinterval, hcurrent, hopen⟩ := hrepeats
      have hsignal := signal_repeats eventType
        { s with timing := s.timing.on core Core.Timer.popEvent } e.userData
        (cyclesLate (s.timing.timers core).executedTicks e.time) hinterval hopen hcurrent
        (hself.symm ▸ hsane)
      refine .returns { Timing.eventFor (s.timing.timers core).popEvent
          (wrapS64 (s.cycles e - cyclesLate (s.ticks core) e.time)) eventType e.userData
          s.nextId with fifoOrder := (s.timing.timers core).popEvent.eventFifoId }
        _ ⟨htype, hinterval, hcurrent, hopen⟩ ?_ htype.symm rfl hpop ?_
      · exact eventFor_retime (t := (s.timing.timers core).popEvent) hsane _ _ eventType e.userData
          s.nextId
      · rw [hsignal]
        dsimp only
        rw [hself]
        exact Core.Timer.enqueue_toList _ _
    · refine .leaves hrepeats ?_
      rw [signal_same]
      · rwa [hself]
      · exact fun hinterval hopen hcurrent => hrepeats ⟨htype, hinterval, hcurrent, hopen⟩
  · rw [if_neg htype]
    refine .leaves (fun h => htype h.1) ?_
    rwa [hself]

theorem fire_setting (eventType : κ) (hsane : (s.timing.timers core).isTimerSane = true)
    (e : Event κ) : SameSetting core s (s.fire eventType core e) ∧
      ((s.timing.timers core).Heaped →
        ((s.fire eventType core e).timing.timers core).Heaped) := by
  have hself := Timing.on_self s.timing core Core.Timer.popEvent
  unfold fire
  dsimp only
  by_cases htype : e.type = eventType
  · rw [if_pos htype]
    obtain ⟨htimers, hcurrent, hlocked⟩ := signal_setting eventType
      { s with timing := s.timing.on core Core.Timer.popEvent } e.userData
      (cyclesLate (s.timing.timers core).executedTicks e.time)
    by_cases hrepeats : Repeats eventType s core e
    · have hsignal := signal_repeats eventType
        { s with timing := s.timing.on core Core.Timer.popEvent } e.userData
        (cyclesLate (s.timing.timers core).executedTicks e.time) hrepeats.2.1 hrepeats.2.2.2
        hrepeats.2.2.1 (hself.symm ▸ hsane)
      dsimp only at hsignal
      rw [hself] at hsignal
      refine ⟨⟨htimers, hcurrent, hlocked, ?_, ?_⟩, fun hheap => ?_⟩
      · rw [TimerSystem.ticks, hsignal]
        rfl
      · rw [hsignal]
        rfl
      · rw [hsignal]
        exact hheap.popEvent.enqueue _
    · have hsignal := signal_same eventType core
        { s with timing := s.timing.on core Core.Timer.popEvent } e.userData
        (cyclesLate (s.timing.timers core).executedTicks e.time)
        fun hinterval hopen hcurrent => hrepeats ⟨htype, hinterval, hcurrent, hopen⟩
      dsimp only at hsignal
      rw [hself] at hsignal
      refine ⟨⟨htimers, hcurrent, hlocked, ?_, ?_⟩, fun hheap => ?_⟩
      · rw [TimerSystem.ticks, hsignal]
        rfl
      · rw [hsignal]
        rfl
      · rw [hsignal]
        exact hheap.popEvent
  · rw [if_neg htype]
    refine ⟨⟨rfl, rfl, rfl, ?_, ?_⟩, fun hheap => ?_⟩
    · rw [TimerSystem.ticks, hself]
      rfl
    · rw [hself]
      rfl
    · rw [hself]
      exact hheap.popEvent

/-- An event is through with the loop after at most so many rounds. -/
def EndsIn (eventType : κ) (s : TimerSystem ι κ) (core : ι) (e : Event κ) (n : Nat) : Prop :=
  Ends (s.ticks core) (s.cycles e) (Repeats eventType s core e) e.time n

omit [DecidableEq ι] [DecidableEq κ] in
theorem EndsIn.congr {n : Nat} (h : EndsIn eventType s core e n) (hsame : SameSetting core s t) :
    EndsIn eventType t core e n := by
  have hrepeats : Repeats eventType t core e = Repeats eventType s core e :=
    propext hsame.repeats
  rw [EndsIn, hsame.ticks, hsame.cycles, hrepeats]
  exact h

/-- The least number of rounds. -/
noncomputable def rounds (eventType : κ) (s : TimerSystem ι κ) (core : ι) (e : Event κ) : Nat :=
  sInf {n | EndsIn eventType s core e n}

omit [DecidableEq ι] [DecidableEq κ] in
theorem endsIn_rounds (h : ∃ n, EndsIn eventType s core e n) :
    EndsIn eventType s core e (rounds eventType s core e) := Nat.sInf_mem h

omit [DecidableEq ι] [DecidableEq κ] in
theorem rounds_congr (hsame : SameSetting core s t) :
    rounds eventType t core e = rounds eventType s core e := by
  have hrepeats : Repeats eventType t core e = Repeats eventType s core e :=
    propext hsame.repeats
  unfold rounds EndsIn
  rw [hsame.ticks, hsame.cycles, hrepeats]

omit [DecidableEq ι] [DecidableEq κ] in
theorem rounds_drop {e' : Event κ} (h : ∃ n, EndsIn eventType s core e n)
    (hdue : e.time ≤ s.ticks core) (hrepeats : Repeats eventType s core e)
    (htime : e'.time = retime (s.ticks core) (s.cycles e) e.time) (htype : e'.type = e.type)
    (hdata : e'.userData = e.userData) :
    (∃ n, EndsIn eventType s core e' n) ∧
      rounds eventType s core e' + 1 ≤ rounds eventType s core e := by
  have hmin := endsIn_rounds h
  generalize rounds eventType s core e = n at hmin ⊢
  have hsame : ∀ n, Ends (s.ticks core) (s.cycles e) (Repeats eventType s core e)
      (retime (s.ticks core) (s.cycles e) e.time) n → EndsIn eventType s core e' n := by
    intro n hn
    unfold EndsIn
    have hagain : Repeats eventType s core e' = Repeats eventType s core e := by
      unfold Repeats
      rw [htype, hdata]
    have hcycles : s.cycles e' = s.cycles e := by
      unfold TimerSystem.cycles
      rw [hdata]
    rw [hcycles, htime, hagain]
    exact hn
  cases hmin with
  | later _ hlater => omega
  | once m hnot => exact absurd hrepeats hnot
  | again m _ hnext =>
      exact ⟨⟨m, hsame m hnext⟩, Nat.succ_le_succ (Nat.sInf_le (hsame m hnext))⟩

omit [DecidableEq ι] [DecidableEq κ] in
theorem one_le_rounds (h : ∃ n, EndsIn eventType s core e n) (hdue : e.time ≤ s.ticks core) :
    1 ≤ rounds eventType s core e := by
  have hmin := endsIn_rounds h
  generalize rounds eventType s core e = n at hmin ⊢
  cases hmin with
  | later _ hlater => omega
  | once m _ => omega
  | again m _ _ => omega

theorem drain_returns (hsane : (s.timing.timers core).isTimerSane = true)
    (hends : ∀ e ∈ (s.timing.timers core).eventQueue.toList, ∃ n, EndsIn eventType s core e n)
    {fuel : Nat} (hfuel : ((s.timing.timers core).eventQueue.toList.map
      (rounds eventType s core)).sum ≤ fuel) : (drain eventType core fuel s).isSome := by
  induction fuel generalizing s with
  | zero =>
      rw [drain]
      cases hdue : (s.timing.timers core).due with
      | none => rfl
      | some e =>
          have hperm := Core.Timer.popEvent_toList hdue
          have hone := one_le_rounds (hends e (hperm.mem_iff.mpr List.mem_cons_self))
            (Core.Timer.due_eq_some.mp hdue).2
          rw [(hperm.map _).sum_eq, List.map_cons, List.sum_cons] at hfuel
          omega
  | succ fuel ih =>
      rw [drain]
      cases hdue : (s.timing.timers core).due with
      | none => rfl
      | some e =>
          obtain ⟨hsetting, -⟩ := fire_setting eventType hsane e
          have hticks := (Core.Timer.due_eq_some.mp hdue).2
          have hrounds : ∀ queue : List (Event κ),
              (queue.map (rounds eventType (s.fire eventType core e) core)) =
                queue.map (rounds eventType s core) :=
            fun queue => List.map_congr_left fun f _ => rounds_congr hsetting
          dsimp only
          cases fire_round eventType hsane hdue with
          | leaves _ hperm =>
              refine ih (hsetting.isTimerSane.trans hsane) (fun f hf => ?_) ?_
              · obtain ⟨n, hn⟩ := hends f (hperm.mem_iff.mpr (List.mem_cons_of_mem _ hf))
                exact ⟨n, hn.congr hsetting⟩
              · have hone := one_le_rounds (hends e (hperm.mem_iff.mpr List.mem_cons_self)) hticks
                rw [hrounds]
                rw [(hperm.map _).sum_eq, List.map_cons, List.sum_cons] at hfuel
                omega
          | returns e' rest hrepeats htime htype hdata hperm hperm' =>
              obtain ⟨hends', hdrop⟩ := rounds_drop
                (hends e (hperm.mem_iff.mpr List.mem_cons_self)) hticks hrepeats htime htype hdata
              refine ih (hsetting.isTimerSane.trans hsane) (fun f hf => ?_) ?_
              · rcases List.mem_cons.mp (hperm'.mem_iff.mp hf) with rfl | hf
                · obtain ⟨n, hn⟩ := hends'
                  exact ⟨n, hn.congr hsetting⟩
                · obtain ⟨n, hn⟩ := hends f (hperm.mem_iff.mpr (List.mem_cons_of_mem _ hf))
                  exact ⟨n, hn.congr hsetting⟩
              · rw [hrounds, (hperm'.map _).sum_eq, List.map_cons, List.sum_cons]
                rw [(hperm.map _).sum_eq, List.map_cons, List.sum_cons] at hfuel
                omega

/-- The loop does not return while it holds an event that is never through with it. -/
theorem drain_runs_on (hsane : (s.timing.timers core).isTimerSane = true)
    (hheap : (s.timing.timers core).Heaped)
    (hstuck : ∃ e ∈ (s.timing.timers core).eventQueue.toList, ∀ n, ¬ EndsIn eventType s core e n)
    (fuel : Nat) : drain eventType core fuel s = none := by
  have hdue : ∀ {s : TimerSystem ι κ}, (s.timing.timers core).Heaped →
      (∃ e ∈ (s.timing.timers core).eventQueue.toList, ∀ n, ¬ EndsIn eventType s core e n) →
      ∃ e, (s.timing.timers core).due = some e := by
    rintro s hheap ⟨e, he, hnever⟩
    cases hnone : (s.timing.timers core).due with
    | some f => exact ⟨f, rfl⟩
    | none =>
        exact absurd (.later 0 (hheap.lt_of_due hnone (Array.mem_toList_iff.mp he))) (hnever 0)
  induction fuel generalizing s with
  | zero =>
      obtain ⟨e, he⟩ := hdue hheap hstuck
      rw [drain, he, if_neg nofun]
  | succ fuel ih =>
      obtain ⟨e, he⟩ := hdue hheap hstuck
      rw [drain, he]
      dsimp only
      obtain ⟨hsetting, hheap'⟩ := fire_setting eventType hsane e
      refine ih (hsetting.isTimerSane.trans hsane) (hheap' hheap) ?_
      obtain ⟨f, hf, hnever⟩ := hstuck
      have hstay : ∀ g, (∀ n, ¬ EndsIn eventType s core g n) → ∀ n,
          ¬ EndsIn eventType (s.fire eventType core e) core g n := by
        intro g hg n hn
        refine hg n (hn.congr ⟨hsetting.timers.symm, hsetting.currentTimer.symm,
          hsetting.eventQueueLocked.symm, hsetting.ticks.symm, hsetting.isTimerSane.symm⟩)
      cases fire_round eventType hsane he with
      | leaves hnot hperm =>
          rcases List.mem_cons.mp (hperm.mem_iff.mp hf) with rfl | hf
          · exact absurd (.once 0 hnot) (hnever 1)
          · exact ⟨f, hf, hstay f hnever⟩
      | returns e' rest hrepeats htime htype hdata hperm hperm' =>
          rcases List.mem_cons.mp (hperm.mem_iff.mp hf) with rfl | hf
          · refine ⟨e', hperm'.mem_iff.mpr List.mem_cons_self, hstay e' fun n hn => ?_⟩
            refine hnever (n + 1) (.again n hrepeats ?_)
            have hagain : Repeats eventType s core e' = Repeats eventType s core f := by
              unfold Repeats
              rw [htype, hdata]
            have hcycles : s.cycles e' = s.cycles f := by
              unfold TimerSystem.cycles
              rw [hdata]
            rw [EndsIn, hcycles, htime, hagain] at hn
            exact hn
          · exact ⟨f, hperm'.mem_iff.mpr (List.mem_cons_of_mem _ hf), hstay f hnever⟩

/-! ## What holds of configured timers -/

/-- The heaps are in order and the intervals are what `svcSetTimer` accepts. -/
structure Sound (s : TimerSystem ι κ) : Prop where
  heaped : ∀ i, (s.timing.timers i).Heaped
  interval : ∀ n, 0 ≤ (s.timers n).intervalDelay ∧ (s.timers n).intervalDelay < 2 ^ 63

theorem run_heaped {s : Timing ι κ} (h : ∀ i, (s.timers i).Heaped) (c : Call ι κ) (id : Nat)
    (i : ι) : ((c.run id s).timers i).Heaped := by
  cases hc : c.scheduled id s with
  | none => exact (Call.run_of_none hc i).heaped (h i)
  | some p =>
      obtain ⟨-, hself, hother⟩ := Call.run_of_some (i := p.1) (e := p.2) hc
      by_cases hi : i = p.1
      · exact hi ▸ hself.heaped (h p.1)
      · exact (hother i hi).symm ▸ h i

omit [DecidableEq κ] in
theorem on_heaped {s : Timing ι κ} (h : ∀ i, (s.timers i).Heaped) (j : ι)
    {f : Core.Timer κ → Core.Timer κ} (hf : (f (s.timers j)).Heaped) (i : ι) :
    ((s.on j f).timers i).Heaped := by
  by_cases hi : i = j
  · rw [hi, Timing.on_self]
    exact hf
  · rw [Timing.on_of_ne _ _ hi]
    exact h i

theorem Sound.signal (h : Sound s) (callbackId : Nat) (late : Int) :
    Sound (s.signal eventType callbackId late) := by
  unfold TimerSystem.signal
  split
  · exact ⟨run_heaped h.heaped (.scheduleEvent _ eventType callbackId none false) s.nextId,
      h.interval⟩
  · exact h

theorem Sound.cancel (h : Sound s) (callbackId : Nat) : Sound (s.cancel eventType callbackId) :=
  ⟨run_heaped h.heaped (.unscheduleEvent eventType callbackId) s.nextId, h.interval⟩

theorem Sound.set (h : Sound s) (callbackId : Nat) {initial interval : Int} (hlow : 0 ≤ interval)
    (hhigh : interval < 2 ^ 63) : Sound (s.set eventType callbackId initial interval) := by
  have hset : Sound { s.cancel eventType callbackId with
      timers := Function.update (s.cancel eventType callbackId).timers callbackId
        ⟨initial, interval⟩ } := by
    refine ⟨(h.cancel callbackId).heaped, fun n => ?_⟩
    by_cases hn : n = callbackId
    · subst hn
      dsimp only
      rw [Function.update_self]
      exact ⟨hlow, hhigh⟩
    · dsimp only
      rw [Function.update_of_ne hn]
      exact h.interval n
  unfold TimerSystem.set
  dsimp only
  split
  · exact hset.signal callbackId 0
  · exact ⟨run_heaped hset.heaped (.scheduleEvent _ eventType callbackId none false) s.nextId,
      hset.interval⟩

theorem Sound.fire (h : Sound s) (core : ι) (e : Event κ) : Sound (s.fire eventType core e) := by
  have hpop : Sound { s with timing := s.timing.on core Core.Timer.popEvent } :=
    ⟨on_heaped h.heaped core (h.heaped core).popEvent, h.interval⟩
  unfold TimerSystem.fire
  dsimp only
  split
  · exact hpop.signal _ _
  · exact hpop

theorem Sound.drain (h : Sound s) {fuel : Nat} (hdrain : drain eventType core fuel s = some t) :
    Sound t := by
  induction fuel generalizing s with
  | zero =>
      rw [TimerSystem.drain] at hdrain
      split at hdrain
      · cases hdrain
        exact h
      · cases hdrain
  | succ fuel ih =>
      rw [TimerSystem.drain] at hdrain
      cases hdue : (s.timing.timers core).due with
      | none =>
          rw [hdue] at hdrain
          cases hdrain
          exact h
      | some e =>
          rw [hdue] at hdrain
          exact ih (h.fire core e) hdrain

omit [DecidableEq κ] in
theorem Sound.beginAdvance (h : Sound s) (core : ι) :
    Sound { s with timing := s.timing.on core Core.Timer.beginAdvance } :=
  ⟨on_heaped h.heaped core (h.heaped core).moveEvents, h.interval⟩

end TimerSystem

section Configuration

open TimerSystem

variable {eventType : κ} {s : TimerSystem ι κ} {core : ι}

theorem Configured.sound (h : Configured eventType s) : Sound s := by
  induction h with
  | start baseTicks scale core _ _ =>
      exact ⟨fun _ => BinaryHeap.isHeap_empty _, fun _ => ⟨le_rfl, by norm_num⟩⟩
  | setTimer callbackId initial interval _ _ hhigh hset ih =>
      unfold TimerSystem.setTimer at hset
      split at hset
      · rename_i haccepted
        cases hset
        exact ih.set callbackId haccepted.2 hhigh
      · cases hset
  | cancelTimer callbackId _ ih => exact ih.cancel callbackId
  | call c _ ih => exact ⟨run_heaped ih.heaped c _, ih.interval⟩
  | advance core fuel _ hadvance ih =>
      obtain ⟨t, ht, rfl⟩ := Option.map_eq_some_iff.mp hadvance
      have hdrained := (ih.beginAdvance core).drain ht
      exact ⟨on_heaped hdrained.heaped core (hdrained.heaped core), hdrained.interval⟩

omit [DecidableEq κ] in
theorem forall_mem_moveEvents {P : Event κ → Prop}
    (hP : ∀ e n, P { e with fifoOrder := n } ↔ P e) (t : Core.Timer κ) :
    (∀ e ∈ t.moveEvents.eventQueue.toList, P e) ↔
      ∀ e ∈ t.eventQueue.toList ++ t.tsQueue, P e := by
  have hfold : ∀ (events : List (Event κ)) (t : Core.Timer κ),
      (∀ e ∈ (events.foldl Core.Timer.enqueue t).eventQueue.toList, P e) ↔
        ∀ e ∈ t.eventQueue.toList ++ events, P e := by
    intro events
    induction events with
    | nil =>
        intro t
        rw [List.append_nil, List.foldl_nil]
    | cons e rest ih =>
        intro t
        rw [List.foldl_cons, ih]
        have hqueue : (∀ f ∈ (t.enqueue e).eventQueue.toList, P f) ↔
            P e ∧ ∀ f ∈ t.eventQueue.toList, P f := by
          rw [← hP e t.eventFifoId, ← List.forall_mem_cons]
          exact forall_congr' fun f => imp_congr_left (Core.Timer.enqueue_toList t e).mem_iff
        rw [List.forall_mem_append, List.forall_mem_append, List.forall_mem_cons, hqueue]
        exact ⟨fun h => ⟨h.1.2, h.1.1, h.2⟩, fun h => ⟨⟨h.2.1, h.1⟩, h.2.2⟩⟩
  exact hfold t.tsQueue { t with tsQueue := [] }

/-- The time of a core once `Advance` has added the ticks of its slice. -/
def TimerSystem.ticksAfter (s : TimerSystem ι κ) (core : ι) : Int :=
  wrapS64 ((s.timing.timers core).executedTicks +
    ((s.timing.timers core).sliceLength - (s.timing.timers core).downcount))

/-- No timer has been set. -/
def freshTimers : TimerSystem Unit Unit := { timing := .initial 0 id () }

end Configuration

end Cytrus.Kernel
