import Cytrus.Nwm.UdsHost

/-!
# Node ids in a network

The answer of a host to an EAPoL-Start frame is broadcast and does not say which
client it is for. A client that is connecting takes the node id of the first
answer that it gets, which may be that of another one.

## Main results

* `Settles.step`: what a step does to the clients that the host has an answer for
* `nodeIds_agree`: the clients have the node ids that the host has given them if
  they only take answers of their own

## Implementation notes

Frames arrive in the order in which one console sends them to another one. An
EAPoL-Start frame and its answer are marked with the client, the number of times
that it has left before, and the type of the connection; the program does not
read the mark.
-/

namespace Cytrus.Nwm

open Function (update_self update_of_ne update_apply)

variable {μ : Type*} [DecidableEq μ]

/-- Which EAPoL-Start frame is meant. -/
structure Attempt (μ : Type*) where
  mac : μ
  leaves : Nat
  connectionType : ConnectionType

/-- A frame with its mark. -/
structure Sent (μ : Type*) where
  frame : Frame μ
  attempt : Option (Attempt μ)

/-- The mark of a frame that `mac` sends while it handles one with the mark `handled`. -/
def Frame.mark (mac : μ) (leaves : Nat) (handled : Option (Attempt μ)) :
    Frame μ → Option (Attempt μ)
  | .eapolStart _ connectionType _ => some ⟨mac, leaves, connectionType⟩
  | .eapolLogoff .. => handled
  | _ => none

/-- The consoles of a room, and the frames between any two of them. -/
structure Network (μ : Type*) where
  devices : μ → Device μ
  channel : μ → μ → List (Sent μ)
  /-- How often a console has left. -/
  leaves : μ → Nat

/-- What happens in a network. -/
inductive NetworkAction (μ : Type*)
  | deliver (sender receiver : μ)
  | connect (client server : μ) (totalNodes maxNodes : Nat) (connType : ConnectionType)
  | disconnect (client : μ)

namespace Network

variable (n : Network μ)

/-- The room passes a packet to its destination, or to everybody else. -/
def Reaches (sender receiver : μ) (packet : WifiPacket μ) : Prop :=
  match packet.destination with
  | some mac => mac = receiver
  | none => receiver ≠ sender

instance (sender receiver : μ) (packet : WifiPacket μ) : Decidable (Reaches sender receiver packet) :=
  match h : packet.destination with
  | some mac => decidable_of_iff (mac = receiver) (by rw [Reaches, h])
  | none => decidable_of_iff (receiver ≠ sender) (by rw [Reaches, h])

/-- `SendPacket` for some packets, while a frame with the mark `handled` is handled. -/
def send (sender : μ) (handled : Option (Attempt μ)) (packets : List (WifiPacket μ)) : Network μ :=
  { n with
    channel := fun s r =>
      if s = sender then
        n.channel s r ++ (packets.filter fun p => Reaches s r p).map fun p =>
          ⟨p.frame, p.frame.mark s (n.leaves s) handled⟩
      else n.channel s r }

/-- The network with another state of a console. -/
def setDevice (mac : μ) (d : Device μ) : Network μ :=
  { n with devices := Function.update n.devices mac d }

/-- The network in which a console has handled the first frame of a channel. -/
def receive (sender receiver : μ) (rest : List (Sent μ)) (d : Device μ)
    (handled : Option (Attempt μ)) (packets : List (WifiPacket μ)) : Network μ :=
  (({ n with
      channel := Function.update n.channel sender
        (Function.update (n.channel sender) receiver rest) } : Network μ).setDevice receiver d).send
    receiver handled packets

/-- The network in which a console has done something of its own. -/
def act (mac : μ) (d : Device μ) (packets : List (WifiPacket μ)) : Network μ :=
  (n.setDevice mac d).send mac none packets

/-- A step of the network, in which the console at `host` is the only one that hosts. A network
whose program has been stopped makes no step. -/
def step (host : μ) : NetworkAction μ → Option (Network μ)
  | .deliver sender receiver =>
      match n.channel sender receiver with
      | [] => none
      | sent :: rest =>
          match (n.devices receiver).handle sender sent.frame with
          | .error _ => none
          | .ok (d, packets) => some (n.receive sender receiver rest d sent.attempt packets)
  | .connect client server totalNodes maxNodes connType =>
      if client = host then none
      else
        let (d, packets) := (n.devices client).connectToNetwork server totalNodes maxNodes connType
        some (n.act client d packets)
  | .disconnect client =>
      if client = host then none
      else
        let (d, packets) := (n.devices client).disconnectNetwork
        some { n.act client d packets with
          leaves := Function.update n.leaves client (n.leaves client + 1) }

/-- A network before any client connects. -/
structure Start (host : μ) : Prop where
  books : ∃ taken, (n.devices host).Books taken
  others : ∀ mac ≠ host, (n.devices mac).connectionStatus.status = .notConnected
  channel : ∀ sender receiver, n.channel sender receiver = []

/-- A client that is connecting takes an EAPoL-Logoff frame only if the frame answers an
EAPoL-Start frame that the client has sent, as a client, since it last left. -/
def Safe : NetworkAction μ → Prop
  | .deliver sender receiver =>
      match n.channel sender receiver with
      | ⟨.eapolLogoff .., attempt⟩ :: _ =>
          (n.devices receiver).connectionStatus.status = .connecting →
            (n.devices receiver).connType = .client →
              attempt = some ⟨receiver, n.leaves receiver, .client⟩
      | _ => True
  | _ => True

/-- The connected clients have the node ids that the host has for them, each another one. -/
structure Agrees (host : μ) : Prop where
  nodeId : ∀ mac, (n.devices mac).connectionStatus.status = .connectedAsClient →
    ∃ node, (n.devices host).nodeMap mac = some node ∧
      node.nodeId = (n.devices mac).connectionStatus.networkNodeId
  distinct : ∀ mac mac', (n.devices mac).connectionStatus.status = .connectedAsClient →
    (n.devices mac').connectionStatus.status = .connectedAsClient →
    (n.devices mac).connectionStatus.networkNodeId =
      (n.devices mac').connectionStatus.networkNodeId → mac = mac'

/-- A run, with the states before its steps. -/
inductive Run (host : μ) (start : Network μ) :
    List (Network μ × NetworkAction μ) → Network μ → Prop
  | nil : Run host start [] start
  | step {steps : List (Network μ × NetworkAction μ)} {n n' : Network μ} {a : NetworkAction μ}
      (h : Run host start steps n) (hstep : n.step host a = some n') :
      Run host start (steps ++ [(n, a)]) n'

end Network

/-! ## What a console sends and does -/

/-- An EAPoL-Start frame. -/
def Frame.IsStart : Frame μ → Prop
  | .eapolStart .. => True
  | _ => False

omit [DecidableEq μ] in
theorem Frame.IsStart.eq_eapolStart {frame : Frame μ} (h : frame.IsStart) :
    ∃ associationId connectionType node, frame = .eapolStart associationId connectionType node := by
  cases frame with
  | eapolStart => exact ⟨_, _, _, rfl⟩
  | _ => exact h.elim

/-- An EAPoL-Logoff frame with that node id. -/
def Frame.Assigns (id : UInt16) : Frame μ → Prop
  | .eapolLogoff assignedNodeId .. => assignedNodeId = id
  | _ => False

namespace Device

variable {d d' : Device μ} {sender mac : μ} {frame : Frame μ} {packets : List (WifiPacket μ)}
  {id : UInt16}

/-- Only a host sends answers, and only for an EAPoL-Start frame; nobody sends a Deauthentication
frame for a frame. -/
structure Sends (d d' : Device μ) (sender : μ) (frame : Frame μ) (p : WifiPacket μ) : Prop where
  stays : p.frame ≠ .deauthentication
  starts : p.frame.IsStart → d.connectionStatus.status = .connecting
  answers : ∀ id, p.frame.Assigns id → d.connectionStatus.status = .connectedAsHost ∧
    ∃ associationId connectionType node, frame = .eapolStart associationId connectionType node ∧
      (connectionType = .client → d'.nodeMap sender = some ⟨true, false, id⟩)

theorem sends_eapolStart {connectionType : ConnectionType} {node : NodeInfo}
    {associationId : UInt16}
    (h : d.handleEAPoLStart sender connectionType node = .ok (d', packets)) :
    ∀ p ∈ packets, Sends d d' sender (.eapolStart associationId connectionType node) p := by
  unfold handleEAPoLStart at h
  split at h
  · cases h
    exact fun p hp => nomatch hp
  · next hstatus =>
    have hhost := not_not.mp hstatus
    split at h
    · cases h
      exact fun p hp => nomatch hp
    · split at h
      · cases h
        exact fun p hp => nomatch hp
      · split at h
        · exact nomatch h
        · split at h
          · split at h
            · exact nomatch h
            · cases h
              intro p hp
              rcases List.mem_cons.mp hp with rfl | hp
              · exact ⟨(nomatch ·), False.elim, fun _ => False.elim⟩
              · cases List.mem_singleton.mp hp
                refine ⟨(nomatch ·), False.elim, fun id hid => ⟨hhost, _, _, _, rfl, fun _ => ?_⟩⟩
                cases hid
                exact update_self ..
          · cases h
            intro p hp
            cases List.mem_singleton.mp hp
            exact ⟨(nomatch ·), False.elim, fun id hid => ⟨hhost, _, _, _, rfl, (nomatch ·)⟩⟩
          · cases h
            intro p hp
            cases List.mem_singleton.mp hp
            exact ⟨(nomatch ·), False.elim, fun id hid => ⟨hhost, _, _, _, rfl, (nomatch ·)⟩⟩

theorem sends_handle (h : d.handle sender frame = .ok (d', packets)) :
    ∀ p ∈ packets, Sends d d' sender frame p := by
  cases frame with
  | authentication seq1 =>
      have hr := Except.ok.inj h
      rw [handleAuthenticationFrame] at hr
      split at hr
      · cases hr
        exact fun p hp => absurd hp List.not_mem_nil
      · cases hr
        intro p hp
        rcases List.mem_cons.mp hp with rfl | hp
        · exact ⟨(by rintro ⟨⟩), False.elim, fun _ => False.elim⟩
        · cases List.mem_singleton.mp hp
          exact ⟨(by rintro ⟨⟩), False.elim, fun _ => False.elim⟩
  | associationResponse associationId =>
      cases h
      intro p hp
      rw [handleAssociationResponseFrame] at hp
      split at hp
      · exact absurd hp List.not_mem_nil
      · next hstatus =>
        cases List.mem_singleton.mp hp
        exact ⟨(by rintro ⟨⟩), fun _ => not_not.mp hstatus, fun _ => False.elim⟩
  | eapolStart associationId connectionType node => exact sends_eapolStart h
  | eapolLogoff assignedNodeId connectedNodes maxNodes nodes =>
      cases h
      exact fun p hp => absurd hp List.not_mem_nil
  | nodeMap nodes =>
      cases h
      exact fun p hp => absurd hp List.not_mem_nil
  | deauthentication =>
      cases h
      exact fun p hp => absurd hp List.not_mem_nil

/-- A frame changes the entry of its sender only, and that of a connected one only if it is a
Deauthentication frame. -/
theorem nodeMap_handle (hstatus : d.connectionStatus.status = .connectedAsHost)
    (h : d.handle sender frame = .ok (d', packets))
    (hmac : mac = sender →
      frame ≠ .deauthentication ∧ ∃ node, d.nodeMap mac = some node ∧ node.connected = true) :
    d'.nodeMap mac = d.nodeMap mac := by
  have hupdate {entry : Option Node} (hne : mac ≠ sender) :
      Function.update d.nodeMap sender entry mac = d.nodeMap mac := update_of_ne hne _ _
  cases frame with
  | authentication seq1 =>
      have hr := Except.ok.inj h
      rw [handleAuthenticationFrame] at hr
      split at hr
      · cases hr
        rfl
      · next hchecks =>
        cases hr
        refine hupdate fun heq => ?_
        obtain ⟨-, node, hnode, -⟩ := hmac heq
        exact hchecks (.inr (.inr (.inl (by rw [← heq, hnode]; rfl))))
  | associationResponse associationId =>
      cases h
      rfl
  | eapolStart associationId connectionType node =>
      have hr : d.handleEAPoLStart sender connectionType node = .ok (d', packets) := h
      unfold handleEAPoLStart at hr
      rw [if_neg (not_not.mpr hstatus)] at hr
      split at hr
      · cases hr
        rfl
      · next entry hentry =>
        split at hr
        · cases hr
          rfl
        · next hconnected =>
          have hne : mac ≠ sender := fun heq => by
            obtain ⟨-, node, hnode, hnode'⟩ := hmac heq
            cases Option.some.inj ((heq ▸ hnode).symm.trans hentry)
            exact hconnected hnode'
          split at hr
          · cases hr
          · split at hr
            · split at hr
              · cases hr
              · cases hr
                exact hupdate hne
            · cases hr
              exact hupdate hne
            · cases hr
              rfl
  | eapolLogoff assignedNodeId connectedNodes maxNodes nodes =>
      have hr : d.handleEAPoLLogoff sender assignedNodeId connectedNodes maxNodes nodes = d' :=
        congrArg Prod.fst (Except.ok.inj h)
      rw [handleEAPoLLogoff, hstatus] at hr
      exact congrFun (congrArg nodeMap hr.symm) mac
  | nodeMap nodes =>
      have hr : d.handleNodeMapPacket nodes = d' := congrArg Prod.fst (Except.ok.inj h)
      rw [handleNodeMapPacket, if_pos hstatus] at hr
      exact hr ▸ rfl
  | deauthentication =>
      have hne : mac ≠ sender := fun heq => (hmac heq).1 rfl
      have hr : d.handleDeauthenticationFrame sender = d' := congrArg Prod.fst (Except.ok.inj h)
      rw [handleDeauthenticationFrame, if_neg (not_not.mpr hstatus)] at hr
      split at hr
      · exact hr ▸ rfl
      · simp only at hr
        split at hr
        · exact hr ▸ hupdate hne
        · split at hr
          · exact hr ▸ hupdate hne
          · rw [← hr]
            split <;> exact hupdate hne

omit [DecidableEq μ] in
theorem foldl_noteNode (nodes : List NodeInfo) :
    (nodes.foldl noteNode d).connectionStatus.status = d.connectionStatus.status ∧
      (nodes.foldl noteNode d).connectionStatus.networkNodeId =
        d.connectionStatus.networkNodeId := by
  induction nodes generalizing d with
  | nil => exact ⟨rfl, rfl⟩
  | cons node nodes ih =>
      have hnote : (d.noteNode node).connectionStatus.status = d.connectionStatus.status ∧
          (d.noteNode node).connectionStatus.networkNodeId = d.connectionStatus.networkNodeId := by
        rw [noteNode]
        split <;> exact ⟨rfl, rfl⟩
      exact ⟨ih.1.trans hnote.1, ih.2.trans hnote.2⟩

/-- A console that hosts nothing becomes a client by an answer only. -/
theorem status_handle (hstatus : d.connectionStatus.status ≠ .connectedAsHost)
    (h : d.handle sender frame = .ok (d', packets)) :
    d'.connectionStatus.status ≠ .connectedAsHost ∧
      (d'.connectionStatus.status = .connectedAsClient →
        d.connectionStatus.status = .connectedAsClient ∧
            d'.connectionStatus.networkNodeId = d.connectionStatus.networkNodeId ∨
          d.connectionStatus.status = .connecting ∧ d.connType = .client ∧
            frame.Assigns d'.connectionStatus.networkNodeId) := by
  have hsame {d' : Device μ} (hd : d'.connectionStatus = d.connectionStatus) :
      d'.connectionStatus.status ≠ .connectedAsHost ∧
        (d'.connectionStatus.status = .connectedAsClient →
          d.connectionStatus.status = .connectedAsClient ∧
              d'.connectionStatus.networkNodeId = d.connectionStatus.networkNodeId ∨
            d.connectionStatus.status = .connecting ∧ d.connType = .client ∧
              frame.Assigns d'.connectionStatus.networkNodeId) :=
    ⟨hd ▸ hstatus, fun hclient => .inl ⟨hd ▸ hclient, hd ▸ rfl⟩⟩
  cases frame with
  | authentication seq1 =>
      have hr := Except.ok.inj h
      rw [handleAuthenticationFrame, if_pos (.inr (.inl hstatus))] at hr
      cases hr
      exact hsame rfl
  | associationResponse associationId =>
      cases h
      exact hsame rfl
  | eapolStart associationId connectionType node =>
      have hr : d.handleEAPoLStart sender connectionType node = .ok (d', packets) := h
      unfold handleEAPoLStart at hr
      rw [if_pos hstatus] at hr
      cases hr
      exact hsame rfl
  | eapolLogoff assignedNodeId connectedNodes maxNodes nodes =>
      have hr : d.handleEAPoLLogoff sender assignedNodeId connectedNodes maxNodes nodes = d' :=
        congrArg Prod.fst (Except.ok.inj h)
      rw [← hr]
      have hnote := @foldl_noteNode μ
      cases hs : d.connectionStatus.status with
      | connecting =>
          rw [handleEAPoLLogoff, hs]
          cases htype : d.connType with
          | client => exact ⟨by rintro ⟨⟩, fun _ => .inr ⟨rfl, rfl, rfl⟩⟩
          | spectator => exact ⟨by rintro ⟨⟩, by rintro ⟨⟩⟩
          | unknown => exact ⟨by rintro ⟨⟩, by rintro ⟨⟩⟩
      | connectedAsClient =>
          rw [handleEAPoLLogoff, hs]
          simp only [hnote]
          exact ⟨by rw [hs]; rintro ⟨⟩, fun _ => .inl ⟨trivial, trivial⟩⟩
      | connectedAsSpectator =>
          rw [handleEAPoLLogoff, hs]
          simp only [hnote]
          exact ⟨by rw [hs]; rintro ⟨⟩, fun hclient => absurd (hs.symm.trans hclient) (by rintro ⟨⟩)⟩
      | notConnected =>
          rw [handleEAPoLLogoff, hs]
          exact ⟨hstatus, fun hclient => absurd (hs.symm.trans hclient) (by rintro ⟨⟩)⟩
      | connectedAsHost => exact absurd hs hstatus
  | nodeMap nodes =>
      have hr : d.handleNodeMapPacket nodes = d' := congrArg Prod.fst (Except.ok.inj h)
      rw [handleNodeMapPacket, if_neg hstatus] at hr
      exact hr ▸ hsame rfl
  | deauthentication =>
      have hr : d.handleDeauthenticationFrame sender = d' := congrArg Prod.fst (Except.ok.inj h)
      rw [handleDeauthenticationFrame, if_pos hstatus] at hr
      exact hr ▸ hsame rfl

end Device

namespace Network

variable {n n' : Network μ} {host sender receiver mac a b : μ} {x : Sent μ} {rest : List (Sent μ)}
  {d : Device μ} {handled : Option (Attempt μ)} {packets : List (WifiPacket μ)} {id : UInt16}

/-! ## Clients that are settled -/

variable (n) in
/-- The host has the client under that node id, and no Deauthentication frame is on its way. -/
def Settled (host mac : μ) (id : UInt16) : Prop :=
  (∃ node, (n.devices host).nodeMap mac = some node ∧ node.isClient = true ∧ node.nodeId = id) ∧
    ∀ x ∈ n.channel mac host, x.frame ≠ .deauthentication

/-- An EAPoL-Start frame of a client that has not left since. -/
def Current (mac : μ) (leaves : Nat) (x : Sent μ) : Prop :=
  x.frame.IsStart ∧ ∃ a, x.attempt = some a ∧ a.mac = mac ∧ a.leaves = leaves

variable (n) in
/-- The clients that are connected are settled, and so are those that an answer is under way for. -/
structure Settles (host : μ) : Prop where
  books : ∃ taken, (n.devices host).Books taken
  others : ∀ mac ≠ host, (n.devices mac).connectionStatus.status ≠ .connectedAsHost
  starts : ∀ a b, ∀ x ∈ n.channel a b, ∀ associationId connectionType node,
    x.frame = .eapolStart associationId connectionType node →
      ∃ k ≤ n.leaves a, x.attempt = some ⟨a, k, connectionType⟩
  order : ∀ mac, (n.channel mac host).Pairwise fun x y =>
    Current mac (n.leaves mac) x → y.frame ≠ .deauthentication
  answers : ∀ a b, ∀ x ∈ n.channel a b, ∀ id, x.frame.Assigns id → ∀ t, x.attempt = some t →
    t.leaves ≤ n.leaves t.mac ∧
      (t.leaves = n.leaves t.mac → t.connectionType = .client → n.Settled host t.mac id)
  clients : ∀ mac, (n.devices mac).connectionStatus.status = .connectedAsClient →
    n.Settled host mac (n.devices mac).connectionStatus.networkNodeId

theorem channel_send :
    (n.send mac handled packets).channel a b = n.channel a b ++
      if a = mac then (packets.filter fun p => Reaches a b p).map fun p =>
        ⟨p.frame, p.frame.mark a (n.leaves a) handled⟩ else [] := by
  rw [send]
  simp only
  split
  · rfl
  · exact (List.append_nil _).symm

theorem exists_of_mem_send {y : Sent μ} (hy : y ∈ (if a = mac then
      (packets.filter fun p => Reaches a b p).map fun p =>
        (⟨p.frame, p.frame.mark a (n.leaves a) handled⟩ : Sent μ) else [])) :
    a = mac ∧ ∃ p ∈ packets, y = ⟨p.frame, p.frame.mark mac (n.leaves mac) handled⟩ := by
  split at hy
  · next heq =>
    obtain ⟨p, hp, rfl⟩ := List.mem_map.mp hy
    exact ⟨heq, p, (List.mem_filter.mp hp).1, by rw [heq]⟩
  · exact nomatch hy

omit [DecidableEq μ] in
theorem mark_of_assigns {frame : Frame μ} {leaves : Nat} (h : frame.Assigns id) :
    frame.mark mac leaves handled = handled := by
  cases frame with
  | eapolLogoff => rfl
  | _ => exact h.elim

omit [DecidableEq μ] in
theorem Safe.attempt_eq (h : n.Safe (.deliver sender receiver))
    (hhead : n.channel sender receiver = x :: rest) (hid : x.frame.Assigns id)
    (hstatus : (n.devices receiver).connectionStatus.status = .connecting)
    (htype : (n.devices receiver).connType = .client) :
    x.attempt = some ⟨receiver, n.leaves receiver, .client⟩ := by
  obtain ⟨frame, attempt⟩ := x
  cases frame with
  | eapolLogoff =>
      simp only [Safe, hhead] at h
      exact h hstatus htype
  | _ => exact hid.elim

theorem channel_receive (hhead : n.channel sender receiver = x :: rest) (a b : μ) :
    ∃ old new, (n.receive sender receiver rest d handled packets).channel a b = old ++ new ∧
      old.Sublist (n.channel a b) ∧ (a = sender → b = receiver → old = rest) ∧
      ∀ y ∈ new, a = receiver ∧
        ∃ p ∈ packets, y = ⟨p.frame, p.frame.mark receiver (n.leaves receiver) handled⟩ := by
  refine ⟨_, _, channel_send, ?_, ?_, fun y hy => exists_of_mem_send hy⟩
  · simp only [setDevice, update_apply]
    split
    · next ha =>
      rw [update_apply]
      split
      · next hb =>
        rw [ha, hb, hhead]
        exact List.sublist_cons_self _ _
      · exact ha ▸ .refl _
    · exact .refl _
  · rintro rfl rfl
    simp only [setDevice, update_self]

section Receive

variable (h : n.Settles host) (hhead : n.channel sender receiver = x :: rest)
  (hhandle : (n.devices receiver).handle sender x.frame = .ok (d, packets))
include h hhead hhandle

theorem Settled.receive (hsettled : n.Settled host mac id) :
    (n.receive sender receiver rest d x.attempt packets).Settled host mac id := by
  obtain ⟨⟨node, hnode, hclient, hid⟩, hstays⟩ := hsettled
  refine ⟨⟨node, ?_, hclient, hid⟩, fun y hy => ?_⟩
  · change (Function.update n.devices receiver d host).nodeMap mac = some node
    by_cases hhost : host = receiver
    · subst hhost
      obtain ⟨taken, hbooks⟩ := h.books
      rw [update_self, Device.nodeMap_handle hbooks.status hhandle, hnode]
      rintro rfl
      have hconnected : node.connected = true := by simp_all [Node.isClient]
      exact ⟨hstays x (hhead ▸ List.mem_cons_self), node, hnode, hconnected⟩
    · rw [update_of_ne hhost, hnode]
  · obtain ⟨old, new, hchannel, hold, -, hnew⟩ := @channel_receive μ _ n sender receiver x rest d
      x.attempt packets hhead mac host
    rcases List.mem_append.mp (hchannel ▸ hy) with hy | hy
    · exact hstays y (hold.subset hy)
    · obtain ⟨-, p, hp, rfl⟩ := hnew y hy
      exact (Device.sends_handle hhandle p hp).stays

theorem settled_answer {p : WifiPacket μ} (hp : p ∈ packets) (hid : p.frame.Assigns id) :
    receiver = host ∧ ∃ k ≤ n.leaves sender, ∃ connectionType,
      x.attempt = some ⟨sender, k, connectionType⟩ ∧
      (k = n.leaves sender → connectionType = .client →
        (n.receive sender receiver rest d x.attempt packets).Settled host sender id) := by
  obtain ⟨hstatus, associationId, connectionType, node, hframe, hseat⟩ :=
    (Device.sends_handle hhandle p hp).answers id hid
  have hreceiver : receiver = host := not_not.mp fun hne => h.others receiver hne hstatus
  subst hreceiver
  obtain ⟨k, hk, hattempt⟩ := h.starts sender receiver x (hhead ▸ List.mem_cons_self) _ _ _ hframe
  refine ⟨rfl, k, hk, connectionType, hattempt, ?_⟩
  rintro rfl rfl
  refine ⟨⟨⟨true, false, id⟩, ?_, rfl, rfl⟩, fun y hy => ?_⟩
  · change (Function.update n.devices receiver d receiver).nodeMap sender = _
    rw [update_self, hseat rfl]
  · -- the client has not left since it has sent the frame, as frames arrive in their order
    obtain ⟨old, new, hchannel, -, hold, hnew⟩ := @channel_receive μ _ n sender receiver x rest d
      x.attempt packets hhead sender receiver
    rcases List.mem_append.mp (hchannel ▸ hy) with hy | hy
    · have horder := h.order sender
      rw [hhead] at horder
      refine (List.pairwise_cons.mp horder).1 y (hold rfl rfl ▸ hy) ⟨?_, _, hattempt, rfl, rfl⟩
      rw [hframe]
      trivial
    · obtain ⟨-, p, hp, rfl⟩ := hnew y hy
      exact (Device.sends_handle hhandle p hp).stays

theorem Settles.receive (hsafe : n.Safe (.deliver sender receiver)) :
    (n.receive sender receiver rest d x.attempt packets).Settles host := by
  have hsettled {mac : μ} {id : UInt16} := @Settled.receive μ _ n host sender receiver mac x rest d
    packets id h hhead hhandle
  have hsends := Device.sends_handle hhandle
  have hx : x ∈ n.channel sender receiver := hhead ▸ List.mem_cons_self
  refine ⟨?_, fun mac hmac => ?_, fun a b y hy => ?_, fun mac => ?_, fun a b y hy => ?_,
    fun mac hstatus => ?_⟩
  case refine_1 =>
    change ∃ taken, (Function.update n.devices receiver d host).Books taken
    by_cases hhost : host = receiver
    · subst hhost
      obtain ⟨taken, hbooks⟩ := h.books
      rw [update_self]
      exact hbooks.handle.2 _ hhandle
    · rw [update_of_ne hhost]
      exact h.books
  case refine_2 =>
    change (Function.update n.devices receiver d mac).connectionStatus.status ≠ _
    by_cases hreceiver : mac = receiver
    · subst hreceiver
      rw [update_self]
      exact (Device.status_handle (h.others mac hmac) hhandle).1
    · rw [update_of_ne hreceiver]
      exact h.others mac hmac
  case refine_3 =>
    intro associationId connectionType node hframe
    obtain ⟨old, new, hchannel, hold, -, hnew⟩ := @channel_receive μ _ n sender receiver x rest d
      x.attempt packets hhead a b
    rcases List.mem_append.mp (hchannel ▸ hy) with hy | hy
    · exact h.starts a b y (hold.subset hy) _ _ _ hframe
    · obtain ⟨rfl, p, -, rfl⟩ := hnew y hy
      refine ⟨n.leaves a, le_rfl, ?_⟩
      simp only at hframe
      rw [hframe]
      rfl
  case refine_4 =>
    obtain ⟨old, new, hchannel, hold, -, hnew⟩ := @channel_receive μ _ n sender receiver x rest d
      x.attempt packets hhead mac host
    have hstays : ∀ y ∈ new, y.frame ≠ .deauthentication := by
      intro y hy
      obtain ⟨-, p, hp, rfl⟩ := hnew y hy
      exact (hsends p hp).stays
    rw [hchannel]
    refine List.pairwise_append.mpr ⟨(h.order mac).sublist hold, ?_, fun _ _ y hy _ => hstays y hy⟩
    exact List.pairwise_of_forall_mem_list fun _ _ y hy _ => hstays y hy
  case refine_5 =>
    intro id hid t ht
    obtain ⟨old, new, hchannel, hold, -, hnew⟩ := @channel_receive μ _ n sender receiver x rest d
      x.attempt packets hhead a b
    rcases List.mem_append.mp (hchannel ▸ hy) with hy | hy
    · obtain ⟨hle, hanswer⟩ := h.answers a b y (hold.subset hy) id hid t ht
      exact ⟨hle, fun heq htype => hsettled (hanswer heq htype)⟩
    · obtain ⟨rfl, p, hp, rfl⟩ := hnew y hy
      obtain ⟨-, k, hk, connectionType, hattempt, hanswer⟩ :=
        settled_answer h hhead hhandle hp hid
      simp only [mark_of_assigns hid] at ht
      cases Option.some.inj (hattempt.symm.trans ht)
      exact ⟨hk, hanswer⟩
  case refine_6 =>
    change (Function.update n.devices receiver d mac).connectionStatus.status = _ at hstatus
    change Settled _ host mac (Function.update n.devices receiver d mac).connectionStatus.networkNodeId
    by_cases hreceiver : mac = receiver
    · subst hreceiver
      rw [update_self] at hstatus ⊢
      by_cases hhost : mac = host
      · subst hhost
        obtain ⟨taken, hbooks⟩ := h.books
        obtain ⟨_, hbooks'⟩ := hbooks.handle.2 _ hhandle
        exact nomatch hbooks'.status.symm.trans hstatus
      · rcases (Device.status_handle (h.others mac hhost) hhandle).2 hstatus with
          ⟨hclient, hid⟩ | ⟨hconnecting, htype, hid⟩
        · exact hid ▸ hsettled (h.clients mac hclient)
        · have hattempt := hsafe.attempt_eq hhead hid hconnecting htype
          exact hsettled ((h.answers sender mac x hx _ hid _ hattempt).2 rfl rfl)
    · rw [update_of_ne hreceiver] at hstatus ⊢
      exact hsettled (h.clients mac hstatus)

end Receive

theorem channel_act {p : WifiPacket μ} (a b : μ) :
    ∃ new, (n.act mac d [p]).channel a b = n.channel a b ++ new ∧
      ∀ y ∈ new, a = mac ∧ y = ⟨p.frame, p.frame.mark mac (n.leaves mac) none⟩ := by
  refine ⟨_, channel_send, fun y hy => ?_⟩
  obtain ⟨ha, q, hq, hy⟩ := exists_of_mem_send hy
  exact ⟨ha, List.mem_singleton.mp hq ▸ hy⟩

section Act

variable {p : WifiPacket μ} (h : n.Settles host) (hmac : mac ≠ host)
include h hmac

omit h in
theorem devices_act_host : (n.act mac d [p]).devices host = n.devices host :=
  update_of_ne hmac.symm _ _

theorem Settles.books_act : ∃ taken, ((n.act mac d [p]).devices host).Books taken := by
  rw [devices_act_host hmac]
  exact h.books

theorem Settles.others_act (hstatus : d.connectionStatus.status ≠ .connectedAsHost) (a : μ)
    (ha : a ≠ host) : ((n.act mac d [p]).devices a).connectionStatus.status ≠ .connectedAsHost := by
  change (Function.update n.devices mac d a).connectionStatus.status ≠ _
  by_cases heq : a = mac
  · subst heq
    rwa [update_self]
  · rw [update_of_ne heq]
    exact h.others a ha

omit h in
theorem Settled.act {n' : Network μ} {a : μ} (hsettled : n.Settled host a id)
    (hdevices : n'.devices = (n.act mac d [p]).devices)
    (hchannel : n'.channel = (n.act mac d [p]).channel)
    (hstays : a = mac → p.frame ≠ .deauthentication) : n'.Settled host a id := by
  refine ⟨by rw [hdevices, devices_act_host hmac]; exact hsettled.1, fun y hy => ?_⟩
  obtain ⟨new, hnew, hsent⟩ := @channel_act μ _ n mac d p a host
  rw [hchannel, hnew] at hy
  rcases List.mem_append.mp hy with hy | hy
  · exact hsettled.2 y hy
  · obtain ⟨ha, rfl⟩ := hsent y hy
    exact hstays ha

theorem Settles.connect {server : μ} {totalNodes maxNodes : Nat} {connType : ConnectionType} :
    (n.act mac ((n.devices mac).connectToNetwork server totalNodes maxNodes connType).1
      [⟨some server, .authentication true⟩]).Settles host := by
  generalize hd : ((n.devices mac).connectToNetwork server totalNodes maxNodes connType).1 = d
  have hstatus : d.connectionStatus.status = .connecting := hd ▸ rfl
  have hchannel (a b : μ) := @channel_act μ _ n mac d ⟨some server, .authentication true⟩ a b
  have hsettled {a : μ} {id : UInt16} (hs : n.Settled host a id) :=
    @Settled.act μ _ n host mac d id ⟨some server, .authentication true⟩ hmac _ a hs rfl rfl
      fun _ => (nomatch ·)
  refine ⟨h.books_act hmac, h.others_act hmac (by rw [hstatus]; exact (nomatch ·)),
    fun a b y hy => ?_, fun a => ?_, fun a b y hy => ?_, fun a ha => ?_⟩
  · obtain ⟨new, hnew, hsent⟩ := hchannel a b
    rcases List.mem_append.mp (hnew ▸ hy) with hy | hy
    · exact h.starts a b y hy
    · obtain ⟨-, rfl⟩ := hsent y hy
      exact fun _ _ _ hframe => nomatch hframe
  · obtain ⟨new, hnew, hsent⟩ := hchannel a host
    have hstays : ∀ y ∈ new, y.frame ≠ .deauthentication := by
      intro y hy
      obtain ⟨-, rfl⟩ := hsent y hy
      exact (nomatch ·)
    rw [hnew]
    refine List.pairwise_append.mpr ⟨h.order a, ?_, fun _ _ y hy _ => hstays y hy⟩
    exact List.pairwise_of_forall_mem_list fun _ _ y hy _ => hstays y hy
  · obtain ⟨new, hnew, hsent⟩ := hchannel a b
    rcases List.mem_append.mp (hnew ▸ hy) with hy | hy
    · intro id hid t ht
      obtain ⟨hle, hanswer⟩ := h.answers a b y hy id hid t ht
      exact ⟨hle, fun heq htype => hsettled (hanswer heq htype)⟩
    · obtain ⟨-, rfl⟩ := hsent y hy
      exact fun _ => False.elim
  · change (Function.update n.devices mac d a).connectionStatus.status = _ at ha
    change Settled _ host a (Function.update n.devices mac d a).connectionStatus.networkNodeId
    by_cases heq : a = mac
    · subst heq
      rw [update_self, hstatus] at ha
      exact nomatch ha
    · rw [update_of_ne heq] at ha ⊢
      exact hsettled (h.clients a ha)

theorem Settles.disconnect {n' : Network μ}
    (hdevices : n'.devices = Function.update n.devices mac (n.devices mac).disconnectNetwork.1)
    (hsent : n'.channel = (n.act mac (n.devices mac).disconnectNetwork.1
      [⟨some (n.devices mac).hostMacAddress, .deauthentication⟩]).channel)
    (hleaves : n'.leaves = Function.update n.leaves mac (n.leaves mac + 1)) : n'.Settles host := by
  have hact : n'.devices = (n.act mac (n.devices mac).disconnectNetwork.1
      [⟨some (n.devices mac).hostMacAddress, .deauthentication⟩]).devices := hdevices
  have hchannel (a b : μ) := @channel_act μ _ n mac (n.devices mac).disconnectNetwork.1
    ⟨some (n.devices mac).hostMacAddress, .deauthentication⟩ a b
  have hself : n'.leaves mac = n.leaves mac + 1 := by rw [hleaves, update_self]
  have hother {a : μ} (ha : a ≠ mac) : n'.leaves a = n.leaves a := by
    rw [hleaves, update_of_ne ha]
  have hle (a : μ) : n.leaves a ≤ n'.leaves a := by
    by_cases ha : a = mac
    · subst ha
      omega
    · exact (hother ha).ge
  have hsettled {a : μ} {id : UInt16} (ha : a ≠ mac) (hs : n.Settled host a id) :=
    Settled.act hmac hs hact hsent fun heq => absurd heq ha
  have hstatus : (n.devices mac).disconnectNetwork.1.connectionStatus.status ≠ .connectedAsHost := by
    rw [Device.disconnectNetwork]
    exact (nomatch ·)
  refine ⟨hact ▸ h.books_act hmac, fun a ha => hact ▸ h.others_act hmac hstatus a ha,
    fun a b y hy => ?_, fun a => ?_, fun a b y hy => ?_, fun a ha => ?_⟩
  · obtain ⟨new, hnew, hy'⟩ := hchannel a b
    rw [hsent, hnew] at hy
    rcases List.mem_append.mp hy with hy | hy
    · intro associationId connectionType node hframe
      obtain ⟨k, hk, hattempt⟩ := h.starts a b y hy _ _ _ hframe
      exact ⟨k, hk.trans (hle a), hattempt⟩
    · obtain ⟨-, rfl⟩ := hy' y hy
      exact fun _ _ _ hframe => nomatch hframe
  · obtain ⟨new, hnew, hy'⟩ := hchannel a host
    rw [hsent, hnew]
    by_cases ha : a = mac
    · -- the frames that the client has sent are from before it left
      subst ha
      refine List.pairwise_of_forall_mem_list fun y hy _ _ hcurrent => ?_
      obtain ⟨hstart, t, hattempt, -, ht⟩ := hcurrent
      rcases List.mem_append.mp hy with hy | hy
      · obtain ⟨associationId, connectionType, node, hframe⟩ := hstart.eq_eapolStart
        obtain ⟨k, hk, hattempt'⟩ := h.starts a host y hy _ _ _ hframe
        cases Option.some.inj (hattempt.symm.trans hattempt')
        simp only [hself] at ht
        omega
      · obtain ⟨-, rfl⟩ := hy' y hy
        exact hstart.elim
    · have hnil : new = [] := List.eq_nil_iff_forall_not_mem.mpr fun y hy => ha (hy' y hy).1
      rw [hnil, List.append_nil, hother ha]
      exact h.order a
  · obtain ⟨new, hnew, hy'⟩ := hchannel a b
    rw [hsent, hnew] at hy
    rcases List.mem_append.mp hy with hy | hy
    · intro id hid t ht
      obtain ⟨htle, hanswer⟩ := h.answers a b y hy id hid t ht
      refine ⟨htle.trans (hle t.mac), fun heq htype => ?_⟩
      have hne : t.mac ≠ mac := by
        intro hmac'
        rw [hmac'] at htle heq
        omega
      exact hsettled hne (hanswer (heq.trans (hother hne)) htype)
    · obtain ⟨-, rfl⟩ := hy' y hy
      exact fun _ => False.elim
  · rw [hdevices] at ha ⊢
    by_cases heq : a = mac
    · subst heq
      rw [update_self] at ha
      exact nomatch ha
    · rw [update_of_ne heq] at ha ⊢
      exact hsettled heq (h.clients a ha)

end Act

/-- A step whose condition is met leaves the settled clients settled. -/
theorem Settles.step {action : NetworkAction μ} (h : n.Settles host) (hsafe : n.Safe action)
    (hstep : n.step host action = some n') : n'.Settles host := by
  cases action with
  | deliver sender receiver =>
      rw [Network.step] at hstep
      split at hstep
      · exact nomatch hstep
      · next x rest hhead =>
        split at hstep
        · exact nomatch hstep
        · next d packets hhandle =>
          exact Option.some.inj hstep ▸ h.receive hhead hhandle hsafe
  | connect client server totalNodes maxNodes connType =>
      rw [Network.step] at hstep
      split at hstep
      · exact nomatch hstep
      · next hclient => exact Option.some.inj hstep ▸ h.connect hclient
  | disconnect client =>
      rw [Network.step] at hstep
      split at hstep
      · exact nomatch hstep
      · next hclient =>
        exact h.disconnect hclient (Option.some.inj hstep ▸ rfl) (Option.some.inj hstep ▸ rfl)
          (Option.some.inj hstep ▸ rfl)

theorem Start.settles (h : n.Start host) : n.Settles host where
  books := h.books
  others := fun mac hmac heq => nomatch (h.others mac hmac).symm.trans heq
  starts := fun a b x hx => by rw [h.channel] at hx; exact nomatch hx
  order := fun mac => by rw [h.channel]; exact .nil
  answers := fun a b x hx => by rw [h.channel] at hx; exact nomatch hx
  clients := fun mac hstatus => by
    by_cases hmac : mac = host
    · obtain ⟨_, hbooks⟩ := h.books
      exact nomatch (hmac ▸ hbooks.status).symm.trans hstatus
    · exact nomatch (h.others mac hmac).symm.trans hstatus

omit [DecidableEq μ] in
theorem Settles.agrees (h : n.Settles host) : n.Agrees host := by
  refine ⟨fun mac hstatus => ?_, fun mac mac' hstatus hstatus' hid => ?_⟩
  · obtain ⟨⟨node, hnode, -, hid⟩, -⟩ := h.clients mac hstatus
    exact ⟨node, hnode, hid⟩
  · obtain ⟨⟨node, hnode, hclient, hnodeId⟩, -⟩ := h.clients mac hstatus
    obtain ⟨⟨node', hnode', hclient', hnodeId'⟩, -⟩ := h.clients mac' hstatus'
    obtain ⟨_, hbooks⟩ := h.books
    refine hbooks.toHostBooks.distinct mac ⟨node, hnode, hclient⟩ mac' ⟨node', hnode', hclient'⟩ ?_
    rw [hnode, hnode', Option.map_some, Option.map_some, hnodeId, hnodeId', hid]

/-- In a run whose clients only take answers of their own, the clients have the node ids that the
host has for them. -/
theorem nodeIds_agree {start : Network μ} {steps : List (Network μ × NetworkAction μ)}
    (hstart : start.Start host) (h : Run host start steps n)
    (hsafe : ∀ step ∈ steps, step.1.Safe step.2) : n.Agrees host := by
  refine Settles.agrees ?_
  induction h with
  | nil => exact hstart.settles
  | step _ hstep ih =>
      rw [List.forall_mem_append, List.forall_mem_singleton] at hsafe
      exact (ih hsafe.1).step hsafe.2 hstep

section Example

/-- A host for two nodes, and consoles that are not in a network. -/
def lobby : Network Nat where
  devices := fun mac => if mac = 0 then Device.hostOfTwo else Device.console
  channel := fun _ _ => []
  leaves := fun _ => 0

theorem start_lobby : lobby.Start 0 where
  books := Device.hostReachable_hostOfTwo.books
  others := fun mac hmac => by simp [lobby, hmac, Device.console]
  channel := fun _ _ => rfl

/-- A run whose clients only take answers of their own. -/
def SafeRun (host : μ) (start n : Network μ) : Prop :=
  ∃ steps, Run host start steps n ∧ ∀ step ∈ steps, step.1.Safe step.2

theorem SafeRun.step {start : Network μ} {a : NetworkAction μ} (h : SafeRun host start n)
    (hsafe : n.Safe a) (hstep : n.step host a = some n') : SafeRun host start n' := by
  obtain ⟨steps, hrun, hsteps⟩ := h
  exact ⟨_, hrun.step hstep,
    List.forall_mem_append.mpr ⟨hsteps, List.forall_mem_singleton.mpr hsafe⟩⟩

theorem safeRun_oneClient :
    ∃ n, SafeRun 0 lobby n ∧ (n.devices 1).connectionStatus.status = .connectedAsClient := by
  have hrun : SafeRun 0 lobby lobby := ⟨[], .nil, fun _ hstep => nomatch hstep⟩
  have hconnect := hrun.step (a := .connect 1 0 1 2 .client) trivial rfl
  have hauthenticate := hconnect.step (a := .deliver 1 0) trivial rfl
  have hassociate :=
    (hauthenticate.step (a := .deliver 0 1) trivial rfl).step (a := .deliver 0 1) trivial rfl
  have hstart := hassociate.step (a := .deliver 1 0) trivial rfl
  have hmap := hstart.step (a := .deliver 0 1) trivial rfl
  exact ⟨_, hmap.step (a := .deliver 0 1) (fun _ _ => rfl) rfl, rfl⟩

theorem nodeIds_oneClient :
    ∃ n : Network Nat, (n.devices 1).connectionStatus.status = .connectedAsClient ∧ n.Agrees 0 := by
  obtain ⟨n, ⟨steps, hrun, hsafe⟩, hstatus⟩ := safeRun_oneClient
  exact ⟨n, hstatus, nodeIds_agree start_lobby hrun hsafe⟩

/-- A network behind some actions. -/
def after (n : Network μ) (host : μ) (actions : List (NetworkAction μ)) : Option (Network μ) :=
  actions.foldlM (fun n a => n.step host a) n

theorem exists_run_after {actions : List (NetworkAction μ)} (h : n.after host actions = some n') :
    ∃ steps, Run host n steps n' := by
  induction actions using List.reverseRecOn generalizing n' with
  | nil => exact ⟨[], Option.some.inj h ▸ .nil⟩
  | append_singleton actions action ih =>
      rw [after, List.foldlM_append] at h
      obtain ⟨n'', hbefore, hstep⟩ := Option.bind_eq_some_iff.mp h
      obtain ⟨steps, hrun⟩ := ih hbefore
      simp only [List.foldlM_cons, List.foldlM_nil, bind_pure] at hstep
      exact ⟨_, hrun.step hstep⟩

/-- The first two consoles connect at the same time, and both take the first answer. -/
def overlap : List (NetworkAction Nat) :=
  [.connect 1 0 1 2 .client, .connect 2 0 1 2 .client, .deliver 1 0, .deliver 2 0,
    .deliver 0 1, .deliver 0 1, .deliver 1 0, .deliver 0 1, .deliver 0 1,
    .deliver 0 2, .deliver 0 2, .deliver 0 2, .deliver 0 2]

theorem nodeIds_overlap :
    ∃ steps n, Run 0 lobby steps n ∧
      (n.devices 1).connectionStatus.status = .connectedAsClient ∧
      (n.devices 2).connectionStatus.status = .connectedAsClient ∧
      (n.devices 1).connectionStatus.networkNodeId = 2 ∧
      (n.devices 2).connectionStatus.networkNodeId = 2 ∧
      ((n.devices 0).nodeMap 2).map (·.nodeId) = some 0 := by
  obtain ⟨n, hn⟩ : ∃ n, lobby.after 0 overlap = some n := ⟨_, rfl⟩
  obtain ⟨steps, hrun⟩ := exists_run_after hn
  have hstate : ∀ n ∈ lobby.after 0 overlap,
      (n.devices 1).connectionStatus.status = .connectedAsClient ∧
      (n.devices 2).connectionStatus.status = .connectedAsClient ∧
      (n.devices 1).connectionStatus.networkNodeId = 2 ∧
      (n.devices 2).connectionStatus.networkNodeId = 2 ∧
      ((n.devices 0).nodeMap 2).map (·.nodeId) = some 0 := by
    intro n hn
    cases hn
    exact ⟨rfl, rfl, rfl, rfl, rfl⟩
  exact ⟨steps, n, hrun, hstate n hn⟩

end Example

end Network

end Cytrus.Nwm
