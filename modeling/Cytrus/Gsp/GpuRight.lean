import Mathlib
import Cytrus.Gsp.InterruptQueue

/-!
# The sessions of GSP and their right to the GPU

The port of GSP lets four sessions in. Each has a thread id for as long as it
is connected, and the id of one session at a time has the right to the GPU.

## Main results

* `step_eq_none`: the calls that fail an assertion
* `hasRight_step`: only the session that has the right gives it up
-/

namespace Cytrus.Gsp

inductive GspResult
  | success | firstInitialization | alreadyDone | busy | maxConnectionsReached
  deriving DecidableEq

/-- `GSP_GPU`, with the port that its sessions come through. -/
structure GpuSessions where
  activeSessions : Nat := 0
  /-- The server sessions that were not destroyed yet. -/
  serverSessions : List Nat := []
  connectedSessions : List (Nat × SessionData) := []
  usedThreadIds : UInt32 → Bool := fun _ => false
  activeThreadId : UInt32 := 0xFFFFFFFF
  activeClientThreadId : UInt32 := 0xFFFFFFFF
  firstInitialization : Bool := true

namespace GpuSessions

variable (s : GpuSessions) (session : Nat)

def getUnusedThreadId : Option UInt32 :=
  ([0, 1, 2, 3] : List UInt32).find? fun threadId => !s.usedThreadIds threadId

def getSessionData : Option SessionData :=
  (s.connectedSessions.find? fun info => info.1 = session).map Prod.snd

/-- Write through the pointer that `getSessionData` returns. -/
def modify (f : SessionData → SessionData) : GpuSessions :=
  { s with connectedSessions := s.connectedSessions.map fun info =>
      if info.1 = session then (info.1, f info.2) else info }

/-- What `Connect` leaves for a session that gets the thread id. -/
def clientConnected (threadId : UInt32) : GpuSessions :=
  { s with
    activeSessions := s.activeSessions + 1
    serverSessions := session :: s.serverSessions
    connectedSessions := s.connectedSessions ++ [(session, ⟨threadId, false, false⟩)]
    usedThreadIds := Function.update s.usedThreadIds threadId true }

/-- `Connect` of the port, with the constructor of `SessionData`. -/
def connect : Option (GspResult × GpuSessions) :=
  if s.activeSessions < 4 then
    s.getUnusedThreadId.map fun threadId => (.success, s.clientConnected session threadId)
  else some (.maxConnectionsReached, s)

/-- The destructor of `ServerSession`. -/
def connectionClosed : Option GpuSessions :=
  if 0 < s.activeSessions then
    some { s with
      activeSessions := s.activeSessions - 1
      serverSessions := s.serverSessions.erase session }
  else none

def withoutRight : GpuSessions :=
  { s with activeThreadId := 0xFFFFFFFF, activeClientThreadId := 0xFFFFFFFF }

def releaseRight (data : SessionData) : Option GpuSessions :=
  if s.activeThreadId = data.threadId then some s.withoutRight else none

/-- The session is no longer connected, and the destructor of its data frees the thread id. -/
def eraseSession (threadId : UInt32) : GpuSessions :=
  { s with
    connectedSessions := s.connectedSessions.filter fun info => info.1 ≠ session
    usedThreadIds := Function.update s.usedThreadIds threadId false }

def clientDisconnected : Option GpuSessions := do
  let data ← s.getSessionData session
  let s ← if s.activeThreadId = data.threadId then s.releaseRight data else some s
  some (s.eraseSession session data.threadId)

/-- `RegisterInterruptRelayQueue`, for a handle that may not be of an event. -/
def registerInterruptRelayQueue (valid : Bool) : Option ((GspResult × UInt32) × GpuSessions) := do
  let data ← s.getSessionData session
  if valid then
    some ((if s.firstInitialization then .firstInitialization else .success, data.threadId),
      { s.modify session fun d => ⟨d.threadId, true, true⟩ with firstInitialization := false })
  else none

def unregisterInterruptRelayQueue : Option GpuSessions := do
  let _ ← s.getSessionData session
  some (s.modify session fun d => ⟨d.threadId, false, false⟩)

def acquireGpuRight (clientThreadId : UInt32) (blocking : Bool) :
    Option (GspResult × GpuSessions) := do
  let data ← s.getSessionData session
  if s.activeThreadId = data.threadId then some (.alreadyDone, s)
  else if s.activeThreadId = 0xFFFFFFFF then
    some (.success,
      { s with activeThreadId := data.threadId, activeClientThreadId := clientThreadId })
  else if blocking then none
  else some (.busy, s)

inductive Action
  | connect | closed | disconnect | unregister | release
  | register (valid : Bool)
  | acquire (clientThreadId : UInt32) (blocking : Bool)

/-- The state after an action, if no assertion fails. -/
def step : Action → Option GpuSessions
  | .connect => (s.connect session).map Prod.snd
  | .closed => s.connectionClosed session
  | .disconnect => s.clientDisconnected session
  | .unregister => s.unregisterInterruptRelayQueue session
  | .release => s.getSessionData session >>= s.releaseRight
  | .register valid => (s.registerInterruptRelayQueue session valid).map Prod.snd
  | .acquire clientThreadId blocking =>
      (s.acquireGpuRight session clientThreadId blocking).map Prod.snd

/-- The connected sessions and their thread ids. -/
def threadIds : List (Nat × UInt32) := s.connectedSessions.map fun info => (info.1, info.2.threadId)

def HasRight : Prop := (session, s.activeThreadId) ∈ s.threadIds

/-- A session is an object of its own, which lives at least until it is disconnected. -/
def Enabled : Action → Prop
  | .connect => session ∉ s.serverSessions
  | .closed => session ∈ s.serverSessions ∧ session ∉ s.threadIds.map Prod.fst
  | _ => session ∈ s.threadIds.map Prod.fst

inductive Reachable : GpuSessions → Prop
  | start : Reachable {}
  | step {s s' : GpuSessions} {session : Nat} {a : Action} :
      Reachable s → s.Enabled session a → s.step session a = some s' → Reachable s'

structure WellFormed : Prop where
  sessions : (s.threadIds.map Prod.fst).Nodup
  ids : (s.threadIds.map Prod.snd).Nodup
  used : ∀ id, s.usedThreadIds id = true ↔ id ∈ s.threadIds.map Prod.snd
  small : ∀ id ∈ s.threadIds.map Prod.snd, id < 4
  alive : s.threadIds.map Prod.fst ⊆ s.serverSessions
  active : s.serverSessions.length = s.activeSessions
  right : s.activeThreadId = 0xFFFFFFFF ∨ s.activeThreadId ∈ s.threadIds.map Prod.snd

/-- The sessions are the same, whatever they have registered. -/
structure SameSessions (s s' : GpuSessions) : Prop where
  threadIds : s'.threadIds = s.threadIds
  used : s'.usedThreadIds = s.usedThreadIds
  alive : s'.serverSessions = s.serverSessions
  active : s'.activeSessions = s.activeSessions

/-- What an action of a session does to the sessions and to the right. -/
inductive Change : GpuSessions → Prop
  | connected {id : UInt32} : session ∉ s.serverSessions → s.getUnusedThreadId = some id →
      Change (s.clientConnected session id)
  | closed : session ∈ s.serverSessions → session ∉ s.threadIds.map Prod.fst →
      Change { s with
        activeSessions := s.activeSessions - 1
        serverSessions := s.serverSessions.erase session }
  | disconnected {id : UInt32} : (session, id) ∈ s.threadIds → s.activeThreadId ≠ id →
      Change (s.eraseSession session id)
  | disconnectedWithRight {id : UInt32} : (session, id) ∈ s.threadIds → s.activeThreadId = id →
      Change (s.withoutRight.eraseSession session id)
  | idle {s' : GpuSessions} : s.SameSessions s' → s'.activeThreadId = s.activeThreadId → Change s'
  | acquired {s' : GpuSessions} : s.SameSessions s' → s.activeThreadId = 0xFFFFFFFF →
      (session, s'.activeThreadId) ∈ s.threadIds → Change s'
  | released {s' : GpuSessions} : s.SameSessions s' → (session, s.activeThreadId) ∈ s.threadIds →
      s'.activeThreadId = 0xFFFFFFFF → Change s'

variable {s session}

theorem threadIds_modify {f : SessionData → SessionData} (hf : ∀ d, (f d).threadId = d.threadId) :
    (s.modify session f).threadIds = s.threadIds := by
  simp only [threadIds, modify, List.map_map]
  refine List.map_congr_left fun info _ => ?_
  by_cases h : info.1 = session <;> simp [h, hf]

theorem threadIds_clientConnected (s : GpuSessions) (session : Nat) (id : UInt32) :
    (s.clientConnected session id).threadIds = s.threadIds ++ [(session, id)] := List.map_append

theorem mem_eraseSession {id : UInt32} {info : Nat × UInt32} :
    info ∈ (s.eraseSession session id).threadIds ↔ info ∈ s.threadIds ∧ info.1 ≠ session := by
  simp only [threadIds, eraseSession, List.mem_map, List.mem_filter, decide_eq_true_eq]
  exact ⟨fun ⟨i, ⟨hi, hne⟩, heq⟩ => ⟨⟨i, hi, heq⟩, heq ▸ hne⟩,
    fun ⟨⟨i, hi, heq⟩, hne⟩ => ⟨i, ⟨hi, by rwa [← heq] at hne⟩, heq⟩⟩

theorem eraseSession_sublist (s : GpuSessions) (session : Nat) (id : UInt32) :
    (s.eraseSession session id).threadIds.Sublist s.threadIds := List.filter_sublist.map _

theorem getSessionData_some (h : session ∈ s.threadIds.map Prod.fst) :
    ∃ d, s.getSessionData session = some d ∧ (session, d.threadId) ∈ s.threadIds := by
  obtain ⟨info, hinfo, rfl⟩ : ∃ info ∈ s.connectedSessions, info.1 = session := by
    simpa [threadIds] using h
  cases hfind : s.connectedSessions.find? (fun i => i.1 = info.1) with
  | none => exact absurd (List.find?_eq_none.mp hfind info hinfo) (by simp)
  | some found =>
      have heq : found.1 = info.1 := by simpa using List.find?_some hfind
      refine ⟨found.2, by rw [getSessionData, hfind, Option.map_some], ?_⟩
      exact List.mem_map.mpr ⟨found, List.mem_of_find?_eq_some hfind, by rw [heq]⟩

namespace WellFormed

theorem start : WellFormed {} := ⟨by decide, by decide, by simp [threadIds], by simp [threadIds],
  by simp [threadIds], rfl, Or.inl rfl⟩

theorem eq_of_id (h : s.WellFormed) {x y : Nat} {id : UInt32} (hx : (x, id) ∈ s.threadIds)
    (hy : (y, id) ∈ s.threadIds) : x = y :=
  congrArg Prod.fst (List.inj_on_of_nodup_map h.ids hx hy rfl)

theorem getUnusedThreadId_isSome (h : s.WellFormed) (hlt : s.activeSessions < 4) :
    ∃ id, s.getUnusedThreadId = some id := by
  by_contra hnone
  have hall : ∀ id ∈ ([0, 1, 2, 3] : List UInt32), id ∈ s.threadIds.map Prod.snd := by
    intro id hid
    have hn : s.getUnusedThreadId = none := by
      cases hg : s.getUnusedThreadId with
      | none => rfl
      | some id => exact absurd ⟨id, hg⟩ hnone
    exact (h.used id).mp (by simpa using List.find?_eq_none.mp hn id hid)
  have hids := (List.subperm_of_subset (by decide) hall).length_le
  have hlen := (List.subperm_of_subset h.sessions h.alive).length_le
  have hactive := h.active
  simp only [List.length_map, List.length_cons, List.length_nil] at hids hlen
  omega

theorem clientConnected (h : s.WellFormed) (hnew : session ∉ s.serverSessions) {id : UInt32}
    (hid : s.getUnusedThreadId = some id) : (s.clientConnected session id).WellFormed := by
  have hids := threadIds_clientConnected s session id
  have hunused : id ∉ s.threadIds.map Prod.snd := by
    rw [← h.used id]
    simpa using List.find?_some hid
  have hsmall : id < 4 := by
    have hmem := List.mem_of_find?_eq_some hid
    simp only [List.mem_cons, List.not_mem_nil, or_false] at hmem
    rcases hmem with rfl | rfl | rfl | rfl <;> decide
  constructor <;> try simp only [hids, List.map_append, List.map_cons, List.map_nil]
  case sessions =>
    exact h.sessions.append (List.nodup_singleton _)
      (List.disjoint_singleton.mpr fun hmem => hnew (h.alive hmem))
  case ids =>
    exact h.ids.append (List.nodup_singleton _) (List.disjoint_singleton.mpr hunused)
  case used =>
    intro id'
    by_cases heq : id' = id <;> simp [GpuSessions.clientConnected, heq, h.used]
  case small =>
    intro id' hmem
    rcases List.mem_append.mp hmem with hmem | hmem
    · exact h.small id' hmem
    · rwa [List.mem_singleton.mp hmem]
  case alive =>
    exact List.append_subset.mpr ⟨fun x hx => List.mem_cons_of_mem _ (h.alive hx),
      fun x hx => (List.mem_singleton.mp hx) ▸ List.mem_cons_self⟩
  case active => exact congrArg (· + 1) h.active
  case right => exact h.right.imp_right fun hmem => List.mem_append_left _ hmem

theorem connectionClosed (h : s.WellFormed) (hgone : session ∉ s.threadIds.map Prod.fst)
    (hmem : session ∈ s.serverSessions) : WellFormed { s with
      activeSessions := s.activeSessions - 1
      serverSessions := s.serverSessions.erase session } where
  sessions := h.sessions
  ids := h.ids
  used := h.used
  small := h.small
  alive x hx := (List.mem_erase_of_ne (ne_of_mem_of_not_mem hx hgone)).mpr (h.alive hx)
  active := by rw [List.length_erase_of_mem hmem, h.active]
  right := h.right

theorem eraseSession (h : s.WellFormed) {id : UInt32} (hmem : (session, id) ∈ s.threadIds)
    (hright : s.activeThreadId ≠ id) : (s.eraseSession session id).WellFormed := by
  have hsub := eraseSession_sublist s session id
  have hkept : ∀ id' ≠ id, id' ∈ s.threadIds.map Prod.snd →
      id' ∈ (s.eraseSession session id).threadIds.map Prod.snd := by
    intro id' hne hid'
    obtain ⟨info, hinfo, rfl⟩ := List.mem_map.mp hid'
    refine List.mem_map_of_mem (mem_eraseSession.mpr ⟨hinfo, fun heq => hne ?_⟩)
    exact congrArg Prod.snd (List.inj_on_of_nodup_map h.sessions hinfo hmem heq)
  have hfree : id ∉ (s.eraseSession session id).threadIds.map Prod.snd := by
    intro hin
    obtain ⟨info, hinfo, heq⟩ := List.mem_map.mp hin
    obtain ⟨hold, hne⟩ := mem_eraseSession.mp hinfo
    exact hne (congrArg Prod.fst (List.inj_on_of_nodup_map h.ids hold hmem heq))
  refine ⟨h.sessions.sublist (hsub.map _), h.ids.sublist (hsub.map _), fun id' => ?_,
    fun id' hin => h.small id' ((hsub.map _).subset hin), fun x hx => h.alive ((hsub.map _).subset hx),
    h.active, h.right.imp_right (hkept _ hright)⟩
  by_cases heq : id' = id
  · subst heq
    simpa [GpuSessions.eraseSession] using hfree
  · have hused : (s.eraseSession session id).usedThreadIds id' = s.usedThreadIds id' :=
      Function.update_of_ne heq _ _
    rw [hused, h.used id']
    exact ⟨hkept id' heq, fun hin => (hsub.map _).subset hin⟩

theorem of_same (h : s.WellFormed) {s' : GpuSessions} (hs : s.SameSessions s')
    (hright : s'.activeThreadId = 0xFFFFFFFF ∨ s'.activeThreadId ∈ s.threadIds.map Prod.snd) :
    s'.WellFormed := by
  obtain ⟨hids, hused, halive, hactive⟩ := hs
  constructor <;> simp only [hids, hused, halive, hactive]
  exacts [h.sessions, h.ids, h.used, h.small, h.alive, h.active, hright]

theorem ne_of_mem (h : s.WellFormed) {id : UInt32} (hmem : (session, id) ∈ s.threadIds) :
    (0xFFFFFFFF : UInt32) ≠ id := by
  intro heq
  have hlt : id < 4 := h.small _ (List.mem_map_of_mem hmem)
  rw [← heq] at hlt
  exact absurd hlt (by decide)

end WellFormed

/-- The calls that fail an assertion. -/
def Fails (s : GpuSessions) (session : Nat) : Action → Prop
  | .register valid => valid = false
  | .acquire _ blocking => blocking = true ∧ ∃ holder ≠ session, s.HasRight holder
  | .release => ¬s.HasRight session
  | _ => False

theorem clientDisconnected_eq {d : SessionData} (hd : s.getSessionData session = some d) :
    s.clientDisconnected session =
      some ((if s.activeThreadId = d.threadId then s.withoutRight else s).eraseSession session
        d.threadId) := by
  by_cases h : s.activeThreadId = d.threadId <;> simp [clientDisconnected, hd, releaseRight, h]

theorem acquireGpuRight_cases {client : UInt32} {blocking : Bool} {d : SessionData}
    (hd : s.getSessionData session = some d) :
    s.step session (.acquire client blocking) =
      if s.activeThreadId = 0xFFFFFFFF ∧ s.activeThreadId ≠ d.threadId then
        some { s with activeThreadId := d.threadId, activeClientThreadId := client }
      else if blocking = true ∧ s.activeThreadId ≠ d.threadId then none else some s := by
  by_cases h : s.activeThreadId = d.threadId <;> by_cases h' : s.activeThreadId = 0xFFFFFFFF <;>
    cases blocking <;> simp_all [step, acquireGpuRight]

theorem WellFormed.step {a : Action} {s' : GpuSessions} (h : s.WellFormed)
    (he : s.Enabled session a) (hs : s.step session a = some s') : s.Change session s' := by
  cases a with
  | connect =>
      by_cases hlt : s.activeSessions < 4
      · obtain ⟨id, hid⟩ := h.getUnusedThreadId_isSome hlt
        obtain rfl : s.clientConnected session id = s' := by
          simpa [GpuSessions.step, connect, hlt, hid] using hs
        exact .connected he hid
      · obtain rfl : s = s' := by simpa [GpuSessions.step, connect, hlt] using hs
        exact .idle ⟨rfl, rfl, rfl, rfl⟩ rfl
  | closed =>
      obtain ⟨-, rfl⟩ : 0 < s.activeSessions ∧ _ = s' := by
        simpa [GpuSessions.step, GpuSessions.connectionClosed] using hs
      exact .closed he.1 he.2
  | disconnect =>
      obtain ⟨d, hd, hmem⟩ := getSessionData_some he
      rw [GpuSessions.step, clientDisconnected_eq hd] at hs
      obtain rfl := Option.some.inj hs
      split
      case isTrue hactive => exact .disconnectedWithRight hmem hactive
      case isFalse hactive => exact .disconnected hmem hactive
  | unregister =>
      obtain ⟨d, hd, -⟩ := getSessionData_some he
      obtain rfl : s.modify session _ = s' := by
        simpa [GpuSessions.step, unregisterInterruptRelayQueue, hd] using hs
      exact .idle ⟨threadIds_modify fun _ => rfl, rfl, rfl, rfl⟩ rfl
  | register valid =>
      obtain ⟨d, hd, -⟩ := getSessionData_some he
      obtain ⟨-, rfl⟩ : valid = true ∧ _ = s' := by
        simpa [GpuSessions.step, registerInterruptRelayQueue, hd] using hs
      have hids : (s.modify session fun d => ⟨d.threadId, true, true⟩).threadIds = s.threadIds :=
        threadIds_modify fun _ => rfl
      exact .idle ⟨hids, rfl, rfl, rfl⟩ rfl
  | release =>
      obtain ⟨d, hd, hmem⟩ := getSessionData_some he
      obtain ⟨hactive, rfl⟩ : s.activeThreadId = d.threadId ∧ s.withoutRight = s' := by
        simpa [GpuSessions.step, hd, releaseRight] using hs
      exact .released ⟨rfl, rfl, rfl, rfl⟩ (hactive ▸ hmem) rfl
  | acquire client blocking =>
      obtain ⟨d, hd, hmem⟩ := getSessionData_some he
      rw [acquireGpuRight_cases hd] at hs
      split at hs
      case isTrue hfree =>
        obtain rfl := Option.some.inj hs
        exact .acquired ⟨rfl, rfl, rfl, rfl⟩ hfree.1 hmem
      case isFalse hfree =>
        split at hs
        · cases hs
        · exact Option.some.inj hs ▸ .idle ⟨rfl, rfl, rfl, rfl⟩ rfl

theorem WellFormed.change {s' : GpuSessions} (h : s.WellFormed) (hc : s.Change session s') :
    s'.WellFormed := by
  cases hc with
  | connected hnew hid => exact h.clientConnected hnew hid
  | closed hmem hgone => exact h.connectionClosed hgone hmem
  | disconnected hmem hright => exact h.eraseSession hmem hright
  | disconnectedWithRight hmem hright =>
      have hnone : s.withoutRight.WellFormed := h.of_same ⟨rfl, rfl, rfl, rfl⟩ (Or.inl rfl)
      exact hnone.eraseSession hmem (h.ne_of_mem hmem)
  | idle hsame heq => exact h.of_same hsame (heq ▸ h.right)
  | acquired hsame _ hmem => exact h.of_same hsame (Or.inr (List.mem_map_of_mem hmem))
  | released hsame _ hnone => exact h.of_same hsame (Or.inl hnone)

theorem Reachable.wellFormed (h : Reachable s) : s.WellFormed := by
  induction h with
  | start => exact .start
  | step _ he hs ih => exact ih.change (ih.step he hs)

theorem WellFormed.hasRight_iff (h : s.WellFormed) {id : UInt32}
    (hmem : (session, id) ∈ s.threadIds) : s.HasRight session ↔ s.activeThreadId = id := by
  refine ⟨fun hr => ?_, fun heq => by rwa [HasRight, heq]⟩
  exact congrArg Prod.snd (List.inj_on_of_nodup_map h.sessions hr hmem rfl)

def rightTaken : GpuSessions :=
  { (({} : GpuSessions).clientConnected 7 0).clientConnected 8 1 with
    activeThreadId := 0, activeClientThreadId := 3 }

theorem reachable_rightTaken : Reachable rightTaken :=
  have hfirst := @Reachable.step _ _ 7 .connect .start (by decide : 7 ∉ []) rfl
  have hboth := @Reachable.step _ _ 8 .connect hfirst (by decide : 8 ∉ [7]) rfl
  @Reachable.step _ _ 7 (.acquire 3 true) hboth (by decide : 7 ∈ [7, 8]) rfl

/-- In every state of a run, these calls and no others fail an assertion. -/
theorem step_eq_none {a : Action} (h : Reachable s) (he : s.Enabled session a) :
    s.step session a = none ↔ s.Fails session a := by
  have hw := h.wellFormed
  cases a with
  | connect =>
      by_cases hlt : s.activeSessions < 4
      · obtain ⟨id, hid⟩ := hw.getUnusedThreadId_isSome hlt
        simp [step, connect, hlt, hid, Fails]
      · simp [step, connect, hlt, Fails]
  | closed =>
      have hpos : 0 < s.activeSessions := hw.active ▸ List.length_pos_of_mem he.1
      simp [step, connectionClosed, hpos, Fails]
  | disconnect =>
      obtain ⟨d, hd, -⟩ := getSessionData_some he
      simp [step, clientDisconnected_eq hd, Fails]
  | unregister =>
      obtain ⟨d, hd, -⟩ := getSessionData_some he
      simp [step, unregisterInterruptRelayQueue, hd, Fails]
  | register valid =>
      obtain ⟨d, hd, -⟩ := getSessionData_some he
      simp [step, registerInterruptRelayQueue, hd, Fails]
  | release =>
      obtain ⟨d, hd, hmem⟩ := getSessionData_some he
      simp [step, hd, releaseRight, Fails, hw.hasRight_iff hmem]
  | acquire client blocking =>
      obtain ⟨d, hd, hmem⟩ := getSessionData_some he
      have hother : (∃ holder ≠ session, s.HasRight holder) ↔
          s.activeThreadId ≠ 0xFFFFFFFF ∧ s.activeThreadId ≠ d.threadId := by
        constructor
        · rintro ⟨holder, hne, hr⟩
          exact ⟨(hw.ne_of_mem hr).symm, fun heq => hne (hw.eq_of_id (heq ▸ hr) hmem)⟩
        · rintro ⟨hnone, hne⟩
          obtain ⟨⟨holder, id⟩, hin, rfl⟩ := List.mem_map.mp (hw.right.resolve_left hnone)
          exact ⟨holder, fun heq => hne ((hw.hasRight_iff hmem).mp (heq ▸ hin)), hin⟩
      rw [acquireGpuRight_cases hd, Fails, hother]
      grind

theorem step_eq_none_rightTaken :
    rightTaken.step 8 (.acquire 4 true) = none ↔ rightTaken.Fails 8 (.acquire 4 true) :=
  step_eq_none reachable_rightTaken (by decide : 8 ∈ [7, 8])

/-- A session that has the right is the only one, and keeps it while others act. -/
theorem hasRight_step {a : Action} {s' : GpuSessions} {holder : Nat} (h : Reachable s)
    (he : s.Enabled session a) (hs : s.step session a = some s') (hr : s.HasRight holder) :
    (∀ other, s.HasRight other → other = holder) ∧
      (session ≠ holder → s'.HasRight holder) := by
  refine ⟨fun other ho => h.wellFormed.eq_of_id ho hr, fun hne => ?_⟩
  have heq := fun {x} hx => h.wellFormed.eq_of_id (x := x) hx hr
  cases h.wellFormed.step he hs with
  | connected _ _ =>
      rw [HasRight, threadIds_clientConnected]
      exact List.mem_append_left _ hr
  | closed _ _ => exact hr
  | disconnected _ _ => exact mem_eraseSession.mpr ⟨hr, hne.symm⟩
  | disconnectedWithRight hmem hright => exact absurd (heq (hright ▸ hmem)) hne
  | idle hsame hactive => rwa [HasRight, hsame.threadIds, hactive]
  | acquired _ hnone _ => exact absurd hnone (h.wellFormed.ne_of_mem hr).symm
  | released _ hmem _ => exact absurd (heq hmem) hne

theorem hasRight_step_rightTaken :
    (∀ other, rightTaken.HasRight other → other = 7) ∧
      (8 ≠ 7 → (rightTaken.eraseSession 8 1).HasRight 7) :=
  @hasRight_step _ 8 .disconnect _ 7 reachable_rightTaken (by decide : 8 ∈ [7, 8]) rfl
    List.mem_cons_self

end GpuSessions

end Cytrus.Gsp
