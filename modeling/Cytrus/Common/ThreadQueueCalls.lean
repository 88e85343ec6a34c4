import Cytrus.Common.ThreadQueueList

/-!
# A list of thread queues, call after call

What a `ThreadQueueList` is for is an array of first-in-first-out queues, with
the levels that were put into use. Its links only make the search for the
lowest level with a thread faster. As long as threads are pushed to levels in
use, the links are never followed wrongly, and every call returns what it
returns on the array.

## Main results

* `Represents.perform`: one call
* `performAll_eq_run`: any sequence of calls
-/

namespace Cytrus.Common

/-! ## An array of queues -/

/-- Queues of threads by level, and the levels that are in use. -/
structure Levels (n : Nat) (α : Type) where
  prepared : Finset (Fin n)
  queue : Fin n → List α

/-- The calls, without those that only look. -/
inductive Call (n : Nat) (α : Type)
  | prepare (priority : Fin n)
  | pushFront (priority : Fin n) (thread : α)
  | pushBack (priority : Fin n) (thread : α)
  | move (thread : α) (oldPriority newPriority : Fin n)
  | remove (priority : Fin n) (thread : α)
  | rotate (priority : Fin n)
  | popFirst
  | popFirstBetter (priority : Fin n)

namespace Levels

variable {n : Nat} {α : Type}

def empty : Levels n α := ⟨∅, fun _ => []⟩

def use (s : Levels n α) (level : Fin n) : Levels n α :=
  { s with prepared := insert level s.prepared }

def set (s : Levels n α) (level : Fin n) (threads : List α) : Levels n α :=
  { s with queue := Function.update s.queue level threads }

@[simp] theorem set_queue (s : Levels n α) (level : Fin n) (threads : List α) :
    (s.set level threads).queue = Function.update s.queue level threads := rfl

/-- The lowest level with a thread, among some of the levels. -/
def lowest (s : Levels n α) (among : Fin n → Prop) [DecidablePred among] : Option (Fin n) :=
  Fin.find? fun level => among level ∧ s.queue level ≠ []

/-- Take the front thread of a level. -/
def pop (s : Levels n α) : Option (Fin n) → Option α × Levels n α
  | none => (none, s)
  | some level => ((s.queue level).head?, s.set level (s.queue level).tail)

/-- What a call returns, and the queues after it. -/
def perform [DecidableEq α] (s : Levels n α) : Call n α → Option α × Levels n α
  | .prepare p => (none, s.use p)
  | .pushFront p a => (none, s.set p (a :: s.queue p))
  | .pushBack p a => (none, s.set p (s.queue p ++ [a]))
  | .move a p p' =>
      let removed := (s.set p ((s.queue p).filter (· ≠ a))).use p'
      (none, removed.set p' (removed.queue p' ++ [a]))
  | .remove p a => (none, s.set p ((s.queue p).filter (· ≠ a)))
  | .rotate p => (none, s.set p ((s.queue p).rotate 1))
  | .popFirst => s.pop (s.lowest fun _ => True)
  | .popFirstBetter p => s.pop (s.lowest (· < p))

/-- What the calls return in turn, and the queues after them. -/
def run [DecidableEq α] (s : Levels n α) : List (Call n α) → List (Option α) × Levels n α
  | [] => ([], s)
  | call :: calls =>
      (((s.perform call).1 :: ((s.perform call).2.run calls).1), ((s.perform call).2.run calls).2)

/-- A level that is pushed to, or compared with, is in use. -/
def Allows (s : Levels n α) : Call n α → Prop
  | .pushFront p _ => p ∈ s.prepared
  | .pushBack p _ => p ∈ s.prepared
  | .popFirstBetter p => p ∈ s.prepared
  | _ => True

/-- Every call is allowed when it comes. -/
def AllowsAll [DecidableEq α] (s : Levels n α) : List (Call n α) → Prop
  | [] => True
  | call :: calls => s.Allows call ∧ (s.perform call).2.AllowsAll calls

variable {s : Levels n α} {among : Fin n → Prop} [DecidablePred among] {level : Fin n}

theorem lowest_eq_some_iff : s.lowest among = some level ↔
    (among level ∧ s.queue level ≠ []) ∧ ∀ l < level, among l → s.queue l = [] := by
  unfold lowest
  rw [Fin.find?_eq_some_iff, decide_eq_true_eq]
  simp

theorem lowest_eq_none_iff : s.lowest among = none ↔ ∀ l, among l → s.queue l = [] := by
  unfold lowest
  rw [Fin.find?_eq_none_iff]
  simp

end Levels

/-! ## The calls on the list -/

namespace ThreadQueueList

variable {n : Nat} {α : Type} {q : ThreadQueueList α} {s : Levels n α}

/-- `rotate`: the front thread goes to the back. -/
def rotate (q : ThreadQueueList α) (priority : Nat) : ThreadQueueList α :=
  match q.data priority with
  | thread :: next :: rest => q.setLevel priority (next :: rest ++ [thread])
  | _ => q

/-- What a call returns, and the list after it; nothing where a link is followed wrongly. -/
def perform [DecidableEq α] (q : ThreadQueueList α) : Call n α →
    Option (Option α × ThreadQueueList α)
  | .prepare p => some (none, q.prepare p)
  | .pushFront p a => some (none, q.pushFront p a)
  | .pushBack p a => some (none, q.pushBack p a)
  | .move a p p' => some (none, q.move a p p')
  | .remove p a => some (none, q.remove p a)
  | .rotate p => some (none, q.rotate p)
  | .popFirst => q.popFirst n
  | .popFirstBetter p => q.popFirstBetter n p

def performAll [DecidableEq α] (q : ThreadQueueList α) : List (Call n α) →
    Option (List (Option α) × ThreadQueueList α)
  | [] => some ([], q)
  | call :: calls => do
      let (result, next) ← q.perform call
      let (results, last) ← next.performAll calls
      return (result :: results, last)

/-- A list and an array of queues agree: the levels in use are one ascending chain of links that
ends at a null pointer, and the queues are the same. -/
structure Represents (q : ThreadQueueList α) (s : Levels n α) : Prop where
  chain : ∃ path, Chain q.nextNonempty q.first path ∧ path.Pairwise (· < ·) ∧
    ∀ level, level ∈ path ↔ ∃ p ∈ s.prepared, p.val = level
  prepared : ∀ level, q.Prepared level ↔ ∃ p ∈ s.prepared, p.val = level
  data : ∀ p : Fin n, q.data p = s.queue p
  pushed : ∀ level, q.data level ≠ [] → q.Prepared level

namespace Represents

theorem linked (h : q.Represents s) : q.WellFormed n := by
  obtain ⟨path, hchain, hsorted, hmem⟩ := h.chain
  refine ⟨path, hchain, hsorted, fun level => ?_, fun level hlevel => ?_⟩
  · exact (hmem level).trans (h.prepared level).symm
  · obtain ⟨p, -, rfl⟩ := (hmem level).mp hlevel
    exact p.isLt

theorem of_wellFormed (hlinked : q.WellFormed n)
    (hprepared : ∀ level, q.Prepared level ↔ ∃ p ∈ s.prepared, p.val = level)
    (hdata : ∀ p : Fin n, q.data p = s.queue p) (hpushed : q.Reaches) : q.Represents s where
  chain := by
    obtain ⟨path, hpath⟩ := hlinked
    exact ⟨path, hpath.chain, hpath.sorted,
      fun level => (hpath.mem_iff level).trans (hprepared level)⟩
  prepared := hprepared
  data := hdata
  pushed := hpushed

theorem empty : (ThreadQueueList.empty : ThreadQueueList α).Represents (Levels.empty : Levels n α) := by
  apply of_wellFormed (wellFormed_empty n)
  · simp [Prepared, ThreadQueueList.empty, Levels.empty]
  · exact fun _ => rfl
  · exact fun level hlevel => absurd rfl hlevel

theorem prepared_val (h : q.Represents s) {p : Fin n} : q.Prepared p ↔ p ∈ s.prepared := by
  rw [h.prepared]
  constructor
  · rintro ⟨p', hp', heq⟩
    rwa [← Fin.ext heq]
  · exact fun hp => ⟨p, hp, rfl⟩

theorem set (h : q.Represents s) {p : Fin n} {threads : List α}
    (hp : threads ≠ [] → p ∈ s.prepared) : (q.setLevel p threads).Represents (s.set p threads) := by
  apply of_wellFormed (h.linked.setLevel p threads)
  · exact h.prepared
  · intro level
    by_cases hlevel : level = p
    · rw [hlevel, setLevel_data, Function.update_self, Levels.set_queue, Function.update_self]
    · rw [setLevel_data, Function.update_of_ne fun heq => hlevel (Fin.ext heq)]
      exact (h.data level).trans (Function.update_of_ne hlevel ..).symm
  · intro level hlevel
    by_cases heq : level = p
    · subst heq
      rw [setLevel_data, Function.update_self] at hlevel
      exact h.prepared_val.mpr (hp hlevel)
    · rw [setLevel_data, Function.update_of_ne heq] at hlevel
      exact h.pushed level hlevel

/-- Only levels in use have threads. -/
theorem mem_of_ne (h : q.Represents s) {p : Fin n} (hp : s.queue p ≠ []) : p ∈ s.prepared :=
  h.prepared_val.mp (h.pushed p (by rwa [h.data]))

end Represents

theorem prepared_link_iff {level p : Nat} :
    (q.link p).Prepared level ↔ level = p ∨ q.Prepared level := by
  unfold link Prepared
  split
  next i hi =>
    have hi := linkedBelow_eq_some hi
    by_cases hlevel : level = i
    · simp [hlevel, hi.2.1]
    · by_cases heq : level = p
      · simp [heq, hi.1.ne', hi.2.1]
      · simp [hlevel, heq]
  next =>
    by_cases heq : level = p
    · simp [heq]
    · simp [heq]

theorem prepared_prepare_iff {level p : Nat} :
    (q.prepare p).Prepared level ↔ level = p ∨ q.Prepared level := by
  unfold prepare
  split
  next => exact prepared_link_iff
  next hsome =>
    have hp : q.Prepared p := Option.isSome_iff_ne_none.mpr hsome
    exact ⟨.inr, fun h => h.elim (· ▸ hp) id⟩

namespace Represents

theorem use (h : q.Represents s) (p : Fin n) : (q.prepare p).Represents (s.use p) := by
  apply of_wellFormed (h.linked.prepare p.isLt)
  · intro level
    rw [prepared_prepare_iff, h.prepared]
    simp [Levels.use, eq_comm]
  · intro level
    rw [prepare_data]
    exact h.data level
  · intro level hlevel
    rw [prepare_data] at hlevel
    exact (h.pushed level hlevel).prepare p

theorem pushBack (h : q.Represents s) {p : Fin n} (hp : p ∈ s.prepared) (a : α) :
    (q.pushBack p a).Represents (s.set p (s.queue p ++ [a])) := by
  have hset : (q.setLevel p (s.queue p ++ [a])).Represents (s.set p (s.queue p ++ [a])) :=
    h.set fun _ => hp
  unfold ThreadQueueList.pushBack
  rwa [h.data]

theorem rotate (h : q.Represents s) (p : Fin n) :
    (q.rotate p).Represents (s.set p ((s.queue p).rotate 1)) := by
  have hset : (q.setLevel p ((s.queue p).rotate 1)).Represents
      (s.set p ((s.queue p).rotate 1)) :=
    h.set fun hne => h.mem_of_ne fun hnil => hne (by rw [hnil, List.rotate_nil])
  have hunchanged : ∀ {threads}, s.queue p = threads → q.setLevel p threads = q := by
    rintro _ rfl
    rw [← h.data]
    unfold setLevel
    rw [Function.update_eq_self]
  unfold ThreadQueueList.rotate
  split
  next a b rest hdata =>
    rwa [← h.data, hdata] at hset ⊢
  next hshort =>
    have hlength : ((s.queue p).rotate 1) = s.queue p := by
      cases hqueue : s.queue p with
      | nil => rfl
      | cons a rest =>
          cases rest with
          | nil => exact List.rotate_singleton a 1
          | cons b rest => exact absurd ((h.data p).trans hqueue) (hshort a b rest)
    rw [hlength] at hset ⊢
    rwa [hunchanged rfl] at hset

variable {bound : Nat → Prop} [DecidablePred bound]

theorem pop (h : q.Represents s) {result : Option (Option α × ThreadQueueList α)}
    (hpops : q.Pops bound result) :
    ∃ q', result = some ((s.pop (s.lowest fun p => bound p)).1, q') ∧
      q'.Represents (s.pop (s.lowest fun p => bound p)).2 := by
  rcases hpops with ⟨rfl, hempty⟩ | ⟨level, a, rest, ⟨hbound, hdata, hfirst⟩, rfl⟩
  · have hnone : (s.lowest fun p => bound p) = none := by
      apply Levels.lowest_eq_none_iff.mpr
      intro p hp
      rw [← h.data]
      exact hempty p hp
    rw [hnone]
    exact ⟨q, rfl, h⟩
  · obtain ⟨p, hp, rfl⟩ := (h.prepared level).mp (h.pushed level (by simp [hdata]))
    rw [h.data] at hdata
    have hsome : (s.lowest fun p => bound p) = some p := by
      apply Levels.lowest_eq_some_iff.mpr
      refine ⟨⟨hbound, by simp [hdata]⟩, fun l hl hbl => ?_⟩
      rw [← h.data]
      exact hfirst l hbl hl
    rw [hsome]
    unfold Levels.pop
    dsimp only
    rw [hdata]
    exact ⟨_, rfl, h.set fun _ => hp⟩

variable [DecidableEq α]

theorem perform (h : q.Represents s) {call : Call n α} (hallow : s.Allows call) :
    ∃ q', q.perform call = some ((s.perform call).1, q') ∧ q'.Represents (s.perform call).2 := by
  have hremove : ∀ (p : Fin n) (a : α),
      (q.remove p a).Represents (s.set p ((s.queue p).filter (· ≠ a))) := by
    intro p a
    have hset : (q.setLevel p ((s.queue p).filter (· ≠ a))).Represents
        (s.set p ((s.queue p).filter (· ≠ a))) :=
      h.set fun hne => h.mem_of_ne fun hnil => hne (by rw [hnil, List.filter_nil])
    unfold ThreadQueueList.remove
    rwa [h.data]
  cases call with
  | prepare p => exact ⟨_, rfl, h.use p⟩
  | pushFront p a =>
      refine ⟨_, rfl, ?_⟩
      have hset : (q.setLevel p (a :: s.queue p)).Represents (s.set p (a :: s.queue p)) :=
        h.set fun _ => hallow
      unfold ThreadQueueList.pushFront
      rwa [h.data]
  | pushBack p a => exact ⟨_, rfl, h.pushBack hallow a⟩
  | move a p p' => exact ⟨_, rfl, ((hremove p a).use p').pushBack (Finset.mem_insert_self ..) a⟩
  | remove p a => exact ⟨_, rfl, hremove p a⟩
  | rotate p => exact ⟨_, rfl, h.rotate p⟩
  | popFirst => exact h.pop (h.linked.popFirst h.pushed)
  | popFirstBetter p =>
      exact h.pop (h.linked.popFirstBetter h.pushed (h.prepared_val.mpr hallow))

theorem performAll (h : q.Represents s) {calls : List (Call n α)} (hallow : s.AllowsAll calls) :
    ∃ q', q.performAll calls = some ((s.run calls).1, q') ∧ q'.Represents (s.run calls).2 := by
  induction calls generalizing q s with
  | nil => exact ⟨q, rfl, h⟩
  | cons call calls ih =>
      obtain ⟨next, hcall, hnext⟩ := h.perform hallow.1
      obtain ⟨last, hcalls, hlast⟩ := ih hnext hallow.2
      refine ⟨last, ?_, hlast⟩
      unfold ThreadQueueList.performAll
      rw [hcall]
      simp only [Option.bind_eq_bind, Option.bind_some, hcalls]
      rfl

end Represents

/-- From the empty list on, calls that push to levels in use return what they return on an array
of queues, and leave the levels in use linked in ascending order. -/
theorem performAll_eq_run [DecidableEq α] (calls : List (Call n α))
    (hallow : (Levels.empty : Levels n α).AllowsAll calls) :
    ∃ q, (empty : ThreadQueueList α).performAll calls = some ((Levels.empty.run calls).1, q) ∧
      q.Represents (Levels.empty.run calls).2 :=
  Represents.empty.performAll hallow

/-- Two levels are put into use from the upper one down, and a search stops below a level. -/
theorem performAll_eq_run_descending :
    ∃ q, (empty : ThreadQueueList Nat).performAll
        [.prepare (2 : Fin 3), .pushBack 2 7, .prepare 1, .popFirstBetter 2, .popFirst] =
          some ([none, none, none, none, some 7], q) ∧
      q.Represents (Levels.empty.run (α := Nat)
        [.prepare (2 : Fin 3), .pushBack 2 7, .prepare 1, .popFirstBetter 2, .popFirst]).2 :=
  performAll_eq_run (n := 3) (α := Nat)
    [.prepare 2, .pushBack 2 7, .prepare 1, .popFirstBetter 2, .popFirst]
    (by simp [Levels.AllowsAll, Levels.Allows, Levels.perform, Levels.use, Levels.set])

end ThreadQueueList

end Cytrus.Common
