import Mathlib
import Cytrus.Support.Ring

/-!
# The interrupt relay queue of GSP

An interrupt goes to the ring that a thread shares with its guest, which takes
interrupts from the front of it. An interrupt that finds the ring full is
dropped, and the two of the displays are counted then.

## Main results

* `relays`: what a guest takes, and what waits for it, is what was not dropped
-/

namespace Cytrus.Gsp

open Support

inductive InterruptId
  | PSC0 | PSC1 | PDC0 | PDC1 | PPF | P3D | DMA
  deriving DecidableEq

def numSlots : UInt8 := 0x34

structure InterruptRelayQueue where
  index : UInt8 := 0
  numberInterrupts : UInt8 := 0
  errorCode : UInt8 := 0
  missedPDC0 : UInt32 := 0
  missedPDC1 : UInt32 := 0
  slot : Vector InterruptId 0x34 := Vector.replicate 0x34 .PSC0

namespace InterruptRelayQueue

variable (q : InterruptRelayQueue)

/-- The slots as a ring. -/
def ring (i : Nat) : InterruptId := q.slot.get (Fin.ofNat 0x34 i)

/-- The interrupts that the guest did not take yet. -/
def pending : List InterruptId :=
  Ring.contents q.ring 0x34 q.index.toNat q.numberInterrupts.toNat

/-- The branch of `SignalInterruptForThread` for a queue with room. -/
def push (interruptId : InterruptId) : InterruptRelayQueue :=
  let next := (q.index + q.numberInterrupts) % numSlots
  { q with
    numberInterrupts := q.numberInterrupts + 1
    slot := q.slot.setIfInBounds next.toNat interruptId
    errorCode := 0 }

/-- The branch for a full queue. -/
def miss (interruptId : InterruptId) : InterruptRelayQueue :=
  if interruptId = .PDC0 then { q with missedPDC0 := q.missedPDC0 + 1 }
  else if interruptId = .PDC1 then { q with missedPDC1 := q.missedPDC1 + 1 }
  else q

/-- What `SignalInterruptForThread` does with the queue. -/
def signal (interruptId : InterruptId) : InterruptRelayQueue :=
  if q.numberInterrupts < numSlots then q.push interruptId else q.miss interruptId

/-- The guest takes the front interrupt, if there is one. -/
def dequeue : Option (InterruptId × InterruptRelayQueue) :=
  if q.numberInterrupts = 0 then none
  else some (q.ring q.index.toNat,
    { q with
      index := (q.index + 1) % numSlots
      numberInterrupts := q.numberInterrupts - 1 })

end InterruptRelayQueue

/-- `SessionData`, with whether there is an event. -/
structure SessionData where
  threadId : UInt32
  registered : Bool
  interruptEvent : Bool

/-- What a signal does outside of the queue. -/
inductive Effect
  | setBufferSwap (screenId : Nat) (threadId : UInt32)
  | signalEvent (threadId : UInt32)

/-- `GSP_GPU`, with what it shares with the threads. -/
structure GspGpu where
  connectedSessions : List SessionData := []
  /-- No thread has the right at `0xFFFFFFFF`. -/
  activeThreadId : UInt32 := 0xFFFFFFFF
  queues : UInt32 → InterruptRelayQueue := fun _ => {}
  /-- `is_dirty` of the framebuffers of a thread. -/
  isDirty : UInt32 × Nat → Bool := fun _ => false

namespace GspGpu

variable (s : GspGpu)

def findRegisteredThreadData (threadId : UInt32) : Option SessionData :=
  s.connectedSessions.find? fun d => d.registered && d.threadId = threadId

/-- The screen that an interrupt is about. -/
def screenOf : InterruptId → Option Nat
  | .PDC0 => some 0
  | .PDC1 => some 1
  | _ => none

def signalInterruptForThread (interruptId : InterruptId) (threadId : UInt32) : GspGpu × List Effect :=
  match s.findRegisteredThreadData threadId with
  | none => (s, [])
  | some d =>
      if !d.interruptEvent then (s, [])
      else
        let s := { s with
          queues := Function.update s.queues threadId ((s.queues threadId).signal interruptId) }
        match screenOf interruptId with
        | none => (s, [.signalEvent threadId])
        | some screenId =>
            if s.isDirty (threadId, screenId) then
              ({ s with isDirty := Function.update s.isDirty (threadId, screenId) false },
                [.setBufferSwap screenId threadId, .signalEvent threadId])
            else (s, [.signalEvent threadId])

/-- `SignalInterrupt`, which every thread gets to know of the displays. -/
def signalInterrupt (interruptId : InterruptId) : GspGpu × List Effect :=
  if interruptId = .PDC0 ∨ interruptId = .PDC1 then
    [0, 1, 2, 3].foldl (fun r threadId =>
      let next := r.1.signalInterruptForThread interruptId threadId
      (next.1, r.2 ++ next.2)) (s, [])
  else if s.activeThreadId = 0xFFFFFFFF then (s, [])
  else s.signalInterruptForThread interruptId s.activeThreadId

end GspGpu

namespace InterruptRelayQueue

variable {q : InterruptRelayQueue} {interruptId : InterruptId}

/-- What the queues of a run keep. -/
structure Valid (q : InterruptRelayQueue) : Prop where
  index_lt : q.index.toNat < 0x34
  number_le : q.numberInterrupts.toNat ≤ 0x34

theorem ring_mod (i : Nat) : q.ring (i % 0x34) = q.ring i := by
  rw [ring, ring]
  exact congrArg q.slot.get (Fin.ext (Nat.mod_mod ..))

theorem toNat_next (h : q.Valid) :
    ((q.index + q.numberInterrupts) % numSlots).toNat =
      (q.index.toNat + q.numberInterrupts.toNat) % 0x34 := by
  have hslots : numSlots.toNat = 0x34 := rfl
  have hindex := h.index_lt
  have hnumber := h.number_le
  rw [UInt8.toNat_mod, UInt8.toNat_add, hslots]
  omega

theorem lt_numSlots_iff : q.numberInterrupts < numSlots ↔ q.numberInterrupts.toNat < 0x34 :=
  UInt8.lt_iff_toNat_lt

theorem ring_push (h : q.Valid) (i : Nat) (hi : i < 0x34) :
    (q.push interruptId).ring i =
      Function.update q.ring ((q.index.toNat + q.numberInterrupts.toNat) % 0x34) interruptId i := by
  have hfin : (Fin.ofNat 0x34 i : Fin 0x34).val = i := Nat.mod_eq_of_lt hi
  rw [ring, push, Vector.get_eq_getElem]
  dsimp only
  rw [toNat_next h, Vector.getElem_setIfInBounds]
  by_cases heq : (q.index.toNat + q.numberInterrupts.toNat) % 0x34 = i
  · rw [heq, Function.update_self, if_pos hfin.symm]
  · rw [Function.update_of_ne (Ne.symm heq), if_neg (by rw [hfin]; exact heq)]
    rfl

theorem pending_push (h : q.Valid) (hroom : q.numberInterrupts.toNat < 0x34) :
    (q.push interruptId).pending = q.pending ++ [interruptId] := by
  have hnumber : (q.push interruptId).numberInterrupts.toNat = q.numberInterrupts.toNat + 1 := by
    have hone : (1 : UInt8).toNat = 1 := rfl
    rw [push, UInt8.toNat_add, hone]
    omega
  rw [pending, hnumber, pending, ← Ring.contents_put hroom]
  exact Ring.contents_congr fun k _ => ring_push h _ (Nat.mod_lt _ (by decide))

theorem Valid.push (h : q.Valid) (hroom : q.numberInterrupts.toNat < 0x34) : (q.push interruptId).Valid where
  index_lt := h.index_lt
  number_le := by
    have hone : (1 : UInt8).toNat = 1 := rfl
    rw [InterruptRelayQueue.push, UInt8.toNat_add, hone]
    omega

/-- Dropping an interrupt only counts it. -/
theorem miss_eq : (q.miss interruptId) = { q with
    missedPDC0 := q.missedPDC0 + if interruptId = .PDC0 then 1 else 0
    missedPDC1 := q.missedPDC1 + if interruptId = .PDC1 then 1 else 0 } := by
  cases interruptId <;> simp [miss]

theorem dequeue_spec {q' : InterruptRelayQueue} (h : q.Valid) (hdequeue : q.dequeue = some (interruptId, q')) :
    q.pending = interruptId :: q'.pending ∧ q'.Valid ∧ q'.missedPDC0 = q.missedPDC0 ∧
      q'.missedPDC1 = q.missedPDC1 := by
  rw [dequeue] at hdequeue
  split at hdequeue
  · exact (Option.some_ne_none _ hdequeue.symm).elim
  · next hsome =>
    obtain ⟨rfl, rfl⟩ := Prod.mk.inj (Option.some.inj hdequeue)
    have hone : (1 : UInt8).toNat = 1 := rfl
    have hslots : numSlots.toNat = 0x34 := rfl
    have hindex := h.index_lt
    have hnumber := h.number_le
    have hpos : 0 < q.numberInterrupts.toNat :=
      Nat.pos_of_ne_zero fun hzero => hsome (UInt8.toNat_inj.mp hzero)
    have hle : (1 : UInt8) ≤ q.numberInterrupts := UInt8.le_iff_toNat_le.mpr hpos
    have hfewer : (q.numberInterrupts - 1).toNat + 1 = q.numberInterrupts.toNat := by
      rw [UInt8.toNat_sub_of_le _ _ hle, hone]
      omega
    have hnext : ((q.index + 1) % numSlots).toNat = (q.index.toNat + 1) % 0x34 := by
      rw [UInt8.toNat_mod, UInt8.toNat_add, hone, hslots]
      omega
    refine ⟨?_, ⟨?_, ?_⟩, rfl, rfl⟩
    · rw [pending, ← hfewer, Ring.contents_succ, ring_mod, pending]
      dsimp only
      rw [hnext, Ring.contents_mod]
      rfl
    · rw [hnext]
      exact Nat.mod_lt _ (by decide)
    · exact (Nat.le_of_lt (Nat.lt_of_succ_le hfewer.le)).trans hnumber

theorem ring_signal_unread (h : q.Valid) {k : Nat} (hk : k < q.numberInterrupts.toNat) :
    (q.signal interruptId).ring (q.index.toNat + k) = q.ring (q.index.toNat + k) := by
  rw [signal]
  split
  · next hroom =>
    rw [lt_numSlots_iff] at hroom
    rw [← ring_mod, ring_push h _ (Nat.mod_lt _ (by decide)), Function.update_of_ne, ring_mod]
    rw [ne_eq, Ring.place_inj (hk.trans hroom) hroom]
    exact hk.ne
  · rw [miss_eq]
    rfl

end InterruptRelayQueue

/-! ## Runs -/

/-- The service, with what each guest took and what was signalled to its thread, each with whether
the queue was full then. -/
structure Observed where
  gsp : GspGpu
  dequeued : UInt32 → List InterruptId := fun _ => []
  signalled : UInt32 → List (InterruptId × Bool) := fun _ => []

/-- The thread is registered, and has an event. -/
def GspGpu.delivers (s : GspGpu) (threadId : UInt32) : Bool :=
  (s.findRegisteredThreadData threadId).any (·.interruptEvent)

theorem GspGpu.signalInterruptForThread_spec (s : GspGpu) (interruptId : InterruptId) (threadId : UInt32) :
    (s.signalInterruptForThread interruptId threadId).1.connectedSessions = s.connectedSessions ∧
      (s.signalInterruptForThread interruptId threadId).1.queues =
        if s.delivers threadId then
          Function.update s.queues threadId ((s.queues threadId).signal interruptId)
        else s.queues := by
  rw [delivers, signalInterruptForThread]
  cases s.findRegisteredThreadData threadId with
  | none => exact ⟨rfl, rfl⟩
  | some d =>
      dsimp only [Option.any_some]
      by_cases hevent : d.interruptEvent = true
      · simp only [hevent, Bool.not_true, Bool.false_eq_true, if_false, if_true]
        cases screenOf interruptId with
        | none => exact ⟨rfl, rfl⟩
        | some screenId =>
            dsimp only
            split <;> exact ⟨rfl, rfl⟩
      · simp only [Bool.not_eq_true] at hevent
        simp only [hevent, Bool.not_false, if_true, Bool.false_eq_true, if_false, and_self]

/-- The threads that `SignalInterrupt` is about. -/
def GspGpu.receivers (s : GspGpu) (interruptId : InterruptId) : List UInt32 :=
  if interruptId = .PDC0 ∨ interruptId = .PDC1 then [0, 1, 2, 3]
  else if s.activeThreadId = 0xFFFFFFFF then [] else [s.activeThreadId]

/-- The entry of a signal. -/
def arrival (q : InterruptRelayQueue) (interruptId : InterruptId) : InterruptId × Bool :=
  (interruptId, q.numberInterrupts = 0x34)

/-- What was not dropped. -/
def kept (signalled : List (InterruptId × Bool)) : List InterruptId :=
  (signalled.filter fun e => !e.2).map Prod.fst

namespace Observed

/-- `SignalInterruptForThread`, observed. -/
def signal (o : Observed) (interruptId : InterruptId) (threadId : UInt32) : Observed where
  gsp := (o.gsp.signalInterruptForThread interruptId threadId).1
  dequeued := o.dequeued
  signalled :=
    if o.gsp.delivers threadId then
      Function.update o.signalled threadId
        (o.signalled threadId ++ [arrival (o.gsp.queues threadId) interruptId])
    else o.signalled

/-- A signal to a thread, a guest that takes an interrupt, or anything else that leaves the queues. -/
inductive Step : Observed → Observed → Prop
  | signal {o : Observed} (interruptId : InterruptId) (threadId : UInt32) :
      Step o (o.signal interruptId threadId)
  | dequeue {o : Observed} {threadId : UInt32} {interruptId : InterruptId} {q : InterruptRelayQueue}
      (hdequeue : (o.gsp.queues threadId).dequeue = some (interruptId, q)) :
      Step o { o with
        gsp := { o.gsp with queues := Function.update o.gsp.queues threadId q }
        dequeued := Function.update o.dequeued threadId (o.dequeued threadId ++ [interruptId]) }
  | other {o : Observed} {gsp : GspGpu} (hqueues : gsp.queues = o.gsp.queues) : Step o { o with gsp := gsp }

/-- The steps from a service on. -/
inductive Run (start : GspGpu) : Observed → Prop
  | start : Run start { gsp := start }
  | step {o o' : Observed} (hrun : Run start o) (hstep : Step o o') : Run start o'

/-- What is known of the queue of a thread. -/
structure Relays (start : GspGpu) (o : Observed) (threadId : UInt32) : Prop where
  valid : (o.gsp.queues threadId).Valid
  order : o.dequeued threadId ++ (o.gsp.queues threadId).pending =
    (start.queues threadId).pending ++ kept (o.signalled threadId)
  missedPDC0 : (o.gsp.queues threadId).missedPDC0 =
    (start.queues threadId).missedPDC0 + UInt32.ofNat ((o.signalled threadId).count (.PDC0, true))
  missedPDC1 : (o.gsp.queues threadId).missedPDC1 =
    (start.queues threadId).missedPDC1 + UInt32.ofNat ((o.signalled threadId).count (.PDC1, true))

variable {start : GspGpu} {o o' : Observed} {threadId : UInt32} {interruptId : InterruptId}

theorem Relays.congr (h : Relays start o threadId) (hqueue : o'.gsp.queues threadId = o.gsp.queues threadId)
    (hdequeued : o'.dequeued threadId = o.dequeued threadId)
    (hsignalled : o'.signalled threadId = o.signalled threadId) : Relays start o' threadId where
  valid := hqueue ▸ h.valid
  order := by rw [hqueue, hdequeued, hsignalled, h.order]
  missedPDC0 := by rw [hqueue, hsignalled, h.missedPDC0]
  missedPDC1 := by rw [hqueue, hsignalled, h.missedPDC1]

theorem queues_signal : (o.signal interruptId threadId).gsp.queues =
    if o.gsp.delivers threadId then
      Function.update o.gsp.queues threadId ((o.gsp.queues threadId).signal interruptId)
    else o.gsp.queues := (o.gsp.signalInterruptForThread_spec interruptId threadId).2

theorem kept_append (l : List (InterruptId × Bool)) (e : InterruptId × Bool) :
    kept (l ++ [e]) = kept l ++ if e.2 then [] else [e.1] := by
  rw [kept, List.filter_append, List.map_append]
  cases h : e.2 <;> simp [kept, h]

theorem add_count (l : List (InterruptId × Bool)) (e e' : InterruptId × Bool) (n : UInt32) :
    n + UInt32.ofNat ((l ++ [e]).count e') =
      n + UInt32.ofNat (l.count e') + if e = e' then 1 else 0 := by
  rw [List.count_append, List.count_singleton, UInt32.ofNat_add, ← add_assoc]
  refine congrArg _ ?_
  by_cases h : e = e' <;> simp [h]

theorem Relays.signal (h : Relays start o threadId) : Relays start (o.signal interruptId threadId) threadId := by
  by_cases hdelivers : o.gsp.delivers threadId = true
  · have hqueue : (o.signal interruptId threadId).gsp.queues threadId =
        (o.gsp.queues threadId).signal interruptId := by
      rw [queues_signal, if_pos hdelivers, Function.update_self]
    have hsignalled : (o.signal interruptId threadId).signalled threadId =
        o.signalled threadId ++ [arrival (o.gsp.queues threadId) interruptId] := by
      rw [Observed.signal]
      dsimp only
      rw [if_pos hdelivers, Function.update_self]
    have hdequeued : (o.signal interruptId threadId).dequeued threadId = o.dequeued threadId := rfl
    rcases Nat.lt_or_ge (o.gsp.queues threadId).numberInterrupts.toNat 0x34 with hroom | hfull
    · have hpush : (o.gsp.queues threadId).signal interruptId = (o.gsp.queues threadId).push interruptId :=
        if_pos (InterruptRelayQueue.lt_numSlots_iff.mpr hroom)
      have harrival : arrival (o.gsp.queues threadId) interruptId = (interruptId, false) := by
        have hne : (o.gsp.queues threadId).numberInterrupts ≠ 0x34 := by
          rintro heq
          rw [heq] at hroom
          exact absurd hroom (by decide)
        rw [arrival, decide_eq_false hne]
      rw [hpush] at hqueue
      rw [harrival] at hsignalled
      refine ⟨hqueue ▸ h.valid.push hroom, ?_, ?_, ?_⟩
      · rw [hqueue, hdequeued, hsignalled, InterruptRelayQueue.pending_push h.valid hroom, kept_append,
          ← List.append_assoc, h.order, List.append_assoc]
        rfl
      · rw [hqueue, hsignalled, add_count, ← h.missedPDC0, if_neg (by simp), UInt32.add_zero]
        rfl
      · rw [hqueue, hsignalled, add_count, ← h.missedPDC1, if_neg (by simp), UInt32.add_zero]
        rfl
    · have hmiss : (o.gsp.queues threadId).signal interruptId = (o.gsp.queues threadId).miss interruptId :=
        if_neg fun hlt => absurd (InterruptRelayQueue.lt_numSlots_iff.mp hlt) (not_lt.mpr hfull)
      have harrival : arrival (o.gsp.queues threadId) interruptId = (interruptId, true) := by
        have heq : (o.gsp.queues threadId).numberInterrupts = 0x34 :=
          UInt8.toNat_inj.mp (h.valid.number_le.antisymm hfull)
        rw [arrival, decide_eq_true heq]
      rw [hmiss, InterruptRelayQueue.miss_eq] at hqueue
      rw [harrival] at hsignalled
      refine ⟨hqueue ▸ ⟨h.valid.index_lt, h.valid.number_le⟩, ?_, ?_, ?_⟩
      · rw [hqueue, hdequeued, hsignalled, kept_append]
        exact h.order.trans (by rw [if_pos rfl, List.append_nil])
      · rw [hqueue, hsignalled, add_count, ← h.missedPDC0]
        simp
      · rw [hqueue, hsignalled, add_count, ← h.missedPDC1]
        simp
  · refine h.congr ?_ rfl ?_
    · rw [queues_signal, if_neg hdelivers]
    · rw [Observed.signal]
      dsimp only
      rw [if_neg hdelivers]

theorem Relays.signal_of_ne {other : UInt32} (h : Relays start o threadId) (hne : threadId ≠ other) :
    Relays start (o.signal interruptId other) threadId := by
  refine h.congr ?_ rfl ?_
  · rw [queues_signal]
    split
    · exact Function.update_of_ne hne ..
    · rfl
  · rw [Observed.signal]
    dsimp only
    split
    · exact Function.update_of_ne hne ..
    · rfl

theorem Relays.step (h : Relays start o threadId) (hstep : Step o o') : Relays start o' threadId := by
  cases hstep with
  | signal interruptId other =>
      rcases eq_or_ne threadId other with rfl | hne
      · exact h.signal
      · exact h.signal_of_ne hne
  | @dequeue other interruptId q hdequeue =>
      rcases eq_or_ne threadId other with rfl | hne
      · obtain ⟨hpending, hvalid, hPDC0, hPDC1⟩ := InterruptRelayQueue.dequeue_spec h.valid hdequeue
        have horder := h.order
        rw [hpending] at horder
        constructor
        · simpa using hvalid
        · simpa using horder
        · simpa [hPDC0] using h.missedPDC0
        · simpa [hPDC1] using h.missedPDC1
      · exact h.congr (Function.update_of_ne hne ..) (Function.update_of_ne hne ..) rfl
  | other hqueues => exact h.congr (congrFun hqueues threadId) rfl rfl

theorem Run.invariant (h : Run start o) (hvalid : (start.queues threadId).Valid) : Relays start o threadId := by
  induction h with
  | start => exact ⟨hvalid, by simp [kept], by simp, by simp⟩
  | step hrun hstep ih => exact ih.step hstep

/-- What a guest takes, and what waits for it, is what was signalled to its thread, without what
found the queue full; and that is counted. -/
theorem relays (h : Run start o) (hvalid : (start.queues threadId).Valid) :
    o.dequeued threadId ++ (o.gsp.queues threadId).pending =
        (start.queues threadId).pending ++ kept (o.signalled threadId) ∧
      (o.gsp.queues threadId).numberInterrupts.toNat ≤ 0x34 ∧
      (o.gsp.queues threadId).missedPDC0 = (start.queues threadId).missedPDC0 +
        UInt32.ofNat ((o.signalled threadId).count (.PDC0, true)) ∧
      (o.gsp.queues threadId).missedPDC1 = (start.queues threadId).missedPDC1 +
        UInt32.ofNat ((o.signalled threadId).count (.PDC1, true)) ∧
      ∀ interruptId, ∀ k < (o.gsp.queues threadId).numberInterrupts.toNat,
        ((o.gsp.queues threadId).signal interruptId).ring ((o.gsp.queues threadId).index.toNat + k) =
          (o.gsp.queues threadId).ring ((o.gsp.queues threadId).index.toNat + k) := by
  have hrelays := h.invariant hvalid
  exact ⟨hrelays.order, hrelays.valid.number_le, hrelays.missedPDC0, hrelays.missedPDC1,
    fun interruptId k hk => InterruptRelayQueue.ring_signal_unread hrelays.valid hk⟩

/-- One thread is registered. -/
def registered : GspGpu := { connectedSessions := [⟨0, true, true⟩] }

theorem relays_registered : ∃ o, Run registered o ∧
    o.dequeued 0 ++ (o.gsp.queues 0).pending = [.PDC0, .P3D] := by
  have hrun : Run registered ((Observed.signal { gsp := registered } .PDC0 0).signal .P3D 0) :=
    (Run.start.step (.signal .PDC0 0)).step (.signal .P3D 0)
  exact ⟨_, hrun, (relays hrun ⟨by decide, by decide⟩).1.trans (by decide)⟩

end Observed

end Cytrus.Gsp
