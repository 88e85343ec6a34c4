import Cytrus.Nwm.SecureData
import Cytrus.Support.Runs

/-!
# Delivery of data packets

A node sends packets to another one, where they are handled in any order and
pulled from the queues of their channels.

## Main results

* `Wf.step`: only packets of the sender are on their way or wait
* `Fifo.step`: a pull that fits gives the packet that has waited longest
* `delivers_iff`: packets are delivered as they are as long as every pull fits

## Implementation notes

What has been accepted, has come in and has been pulled is recorded with its
channel; the program does not read the record. Packets for other nodes are not
recorded.
-/

namespace Cytrus.Nwm

open Support
open ChannelData (queue_eq queue_setPackets find_of_findBindNode)

variable {μ : Type*}

/-- What a pull has given to its caller, with its channel. -/
def Pulled.returned (pulled : Pulled) : List (UInt8 × List UInt8) :=
  match pulled.result, pulled.secureData with
  | .ok size, some secureData => [(secureData.dataChannel, pulled.outputBuffer.take size.toNat)]
  | _, _ => []

/-- What a packet brings to a node. -/
def Station.incoming (s : Station μ) (packet : DataPacket μ) : List (UInt8 × List UInt8) :=
  match parseSecureDataHeader packet.data with
  | some secureData =>
      if s.IsAddressed secureData.destNodeId then
        [(secureData.dataChannel, payload packet.data)]
      else []
  | none => []

/-- The records of a channel. -/
def onChannel (channel : UInt8) (records : List (UInt8 × List UInt8)) : List (List UInt8) :=
  (records.filter fun record => record.1 = channel).map Prod.snd

/-- Two nodes, and the packets on their way from one to the other. -/
structure Link (μ : Type*) where
  sender : Station μ
  receiver : Station μ
  inFlight : List (DataPacket μ) := []
  accepted : List (UInt8 × List UInt8) := []
  arrived : List (UInt8 × List UInt8) := []
  returned : List (UInt8 × List UInt8) := []

/-- What the nodes do. -/
inductive LinkAction
  | sendTo (destNodeId : UInt32) (dataChannel : UInt8) (dataSize : UInt32) (flags : UInt8)
      (inputBuffer : List UInt8)
  | handle (index : Nat)
  | pull (bindNodeId maxOutBuffSize maxOutBuffSizeAligned : UInt32) (outputBuffer : List UInt8)

namespace Link

variable (l : Link μ)

/-- A step of the nodes. -/
def step : LinkAction → Option (Link μ)
  | .sendTo destNodeId dataChannel dataSize flags inputBuffer =>
      match l.sender.sendTo destNodeId dataChannel dataSize flags inputBuffer with
      | none => none
      | some (.error _) => some l
      | some (.ok packet) => some { l with
          inFlight := l.inFlight ++ [packet]
          accepted := l.accepted ++
            if l.receiver.IsAddressed destNodeId.toUInt16 then
              [(dataChannel, inputBuffer.take dataSize.toNat)]
            else [] }
  | .handle index =>
      match l.inFlight[index]? with
      | none => none
      | some packet =>
          (l.receiver.handleSecureDataPacket packet).map fun handled => { l with
            receiver := handled.1
            inFlight := l.inFlight.eraseIdx index
            arrived := l.arrived ++ l.receiver.incoming packet }
  | .pull bindNodeId maxOutBuffSize maxOutBuffSizeAligned outputBuffer =>
      (l.receiver.pullPacket bindNodeId maxOutBuffSize maxOutBuffSizeAligned outputBuffer).map
        fun pulled => { l with
          receiver := pulled.1
          returned := l.returned ++ pulled.2.returned }

/-- The nodes before anything is sent. -/
structure Start : Prop where
  connected : l.receiver.IsConnected
  distinct : l.sender.networkNodeId ≠ l.receiver.networkNodeId
  queue : ∀ channel, l.receiver.channelData.queue channel = []
  inFlight : l.inFlight = []
  accepted : l.accepted = []
  arrived : l.arrived = []
  returned : l.returned = []

/-- The data that waits on a channel. -/
def queued (channel : UInt8) : List (List UInt8) :=
  (l.receiver.channelData.queue channel).map payload

/-- Data that is small enough for the check of `PullPacketHLE` fits into the buffer as well. -/
def Fits : LinkAction → Prop
  | .pull bindNodeId maxOutBuffSize maxOutBuffSizeAligned _ =>
      ∀ bind packet packets, l.receiver.channelData.findBindNode bindNodeId = some bind →
        bind.receivedPackets = packet :: packets →
          (payload packet).length ≤ maxOutBuffSize.toNat →
            (payload packet).length ≤ 4 * min maxOutBuffSizeAligned.toNat 0x172
  | _ => True

/-- What is written stays in the buffer, a pull that fails changes nothing, and one that does not
gives the packet that has waited longest. -/
structure SoundPull (bindNodeId maxOutBuffSize : UInt32) (s : Station μ) (pulled : Pulled) :
    Prop where
  behind : pulled.behind = []
  tooLarge : pulled.result = .error .packetSizeTooLarge → s = l.receiver
  next : ∀ bind packet packets, l.receiver.channelData.findBindNode bindNodeId = some bind →
    bind.receivedPackets = packet :: packets →
      (payload packet).length ≤ maxOutBuffSize.toNat →
        pulled.returned = [(bind.channel, payload packet)] ∧
          s = l.receiver.setPackets bind.channel packets

/-- What a call is expected to do. -/
def Sound : LinkAction → Prop
  | .pull bindNodeId maxOutBuffSize maxOutBuffSizeAligned outputBuffer =>
      ∃ s pulled, l.receiver.pullPacket bindNodeId maxOutBuffSize maxOutBuffSizeAligned
          outputBuffer = some (s, pulled) ∧
        l.SoundPull bindNodeId maxOutBuffSize s pulled
  | _ => True

/-- On a channel that is bound for the sender, what has come in is what has been pulled and what
still waits, in this order. -/
def Fifo : Prop :=
  ∀ channel bind, l.receiver.channelData.find channel = some bind →
    bind.Accepts l.sender.networkNodeId →
      onChannel channel l.arrived = onChannel channel l.returned ++ l.queued channel

/-- The receiver can go on, and nothing that was accepted is lost, doubled or out of order. -/
structure Delivers : Prop where
  handles : ∀ packet ∈ l.inFlight, (l.receiver.handleSecureDataPacket packet).isSome
  pulls : ∀ bindNodeId maxOutBuffSize maxOutBuffSizeAligned outputBuffer,
    (l.receiver.pullPacket bindNodeId maxOutBuffSize maxOutBuffSizeAligned outputBuffer).isSome
  once : l.accepted.Perm (l.arrived ++ l.inFlight.flatMap l.receiver.incoming)
  fifo : l.Fifo

end Link

/-! ## What packets bring -/

section Station

variable {s : Station μ} {channel other : UInt8} {srcNode : UInt16} {packet : DataPacket μ}

theorem Station.incoming_eq {data : List UInt8} {destNode : UInt16}
    (hpacket : packet.data = generateDataPayload data channel destNode srcNode 0) :
    s.incoming packet = if s.IsAddressed destNode then [(channel, data)] else [] := by
  simp only [Station.incoming, hpacket, parseSecureDataHeader_generated,
    payload_generateDataPayload, generateSecureDataHeader]

theorem Station.find_of_setPackets {bind : BindNodeData} {packets : List (List UInt8)}
    (h : (s.setPackets channel packets).channelData.find other = some bind) :
    ∃ before, s.channelData.find other = some before ∧
      before.networkNodeId = bind.networkNodeId := by
  rw [Station.setPackets, ChannelData.find_setPackets] at h
  obtain ⟨before, hfind, rfl⟩ := Option.map_eq_some_iff.mp h
  refine ⟨before, hfind, ?_⟩
  split <;> rfl

theorem onChannel_append (front rest : List (UInt8 × List UInt8)) :
    onChannel channel (front ++ rest) = onChannel channel front ++ onChannel channel rest := by
  rw [onChannel, List.filter_append, List.map_append]
  rfl

theorem onChannel_singleton {data : List UInt8} :
    onChannel channel [(other, data)] = if other = channel then [data] else [] := by
  by_cases h : other = channel <;> simp [onChannel, h]

end Station

namespace Link

variable {l l' : Link μ}

/-! ## The invariant -/

/-- The nodes can tell each other apart, and nothing but packets of the sender is on its way or
waits. -/
structure Wf (l : Link μ) : Prop where
  connected : l.receiver.IsConnected
  distinct : l.sender.networkNodeId ≠ l.receiver.networkNodeId
  inFlight : ∀ packet ∈ l.inFlight, ∃ channel,
    IsSent l.sender.networkNodeId channel packet.data
  queue : ∀ channel, ∀ packet ∈ l.receiver.channelData.queue channel,
    IsSent l.sender.networkNodeId channel packet
  once : l.accepted.Perm (l.arrived ++ l.inFlight.flatMap l.receiver.incoming)

theorem Start.wf (h : l.Start) : l.Wf where
  connected := h.connected
  distinct := h.distinct
  inFlight := by simp [h.inFlight]
  queue := by simp [h.queue]
  once := by simp [h.accepted, h.arrived, h.inFlight]

theorem take_output {data outputBuffer : List UInt8} {n : Nat} :
    (data.take n ++ (resized outputBuffer n 0).drop data.length).take data.length = data.take n := by
  rcases le_total data.length n with h | h
  · rw [List.take_of_length_le h, List.take_left]
  · rw [List.drop_of_length_le (by rw [length_resized]; exact h), List.append_nil, List.take_take,
      min_eq_right h]

/-- What a pull does: it takes nothing, or the packet that has waited longest. -/
inductive Pulls (l : Link μ) (bindNodeId maxOutBuffSize maxOutBuffSizeAligned : UInt32) :
    Station μ → Pulled → Prop
  | nothing {pulled : Pulled} (returned : pulled.returned = []) (behind : pulled.behind = [])
      (next : ∀ bind packet packets,
        l.receiver.channelData.findBindNode bindNodeId = some bind →
          bind.receivedPackets = packet :: packets →
            maxOutBuffSize.toNat < (payload packet).length) :
      Pulls l bindNodeId maxOutBuffSize maxOutBuffSizeAligned l.receiver pulled
  | packet {pulled : Pulled} {bind : BindNodeData} {packet : List UInt8}
      {packets : List (List UInt8)}
      (find : l.receiver.channelData.findBindNode bindNodeId = some bind)
      (waits : bind.receivedPackets = packet :: packets)
      (small : (payload packet).length ≤ maxOutBuffSize.toNat)
      (succeeds : pulled.result ≠ .error .packetSizeTooLarge)
      (returned : pulled.returned = [(bind.channel, (payload packet).take
        (4 * min maxOutBuffSizeAligned.toNat 0x172))])
      (behind : pulled.behind = (payload packet).drop
        (4 * min maxOutBuffSizeAligned.toNat 0x172)) :
      Pulls l bindNodeId maxOutBuffSize maxOutBuffSizeAligned
        (l.receiver.setPackets bind.channel packets) pulled

theorem Wf.pulls (h : l.Wf) (bindNodeId maxOutBuffSize maxOutBuffSizeAligned : UInt32)
    (outputBuffer : List UInt8) :
    ∃ s pulled, l.receiver.pullPacket bindNodeId maxOutBuffSize maxOutBuffSizeAligned outputBuffer =
        some (s, pulled) ∧ l.Pulls bindNodeId maxOutBuffSize maxOutBuffSizeAligned s pulled := by
  cases hfind : l.receiver.channelData.findBindNode bindNodeId with
  | none =>
      have hpull : l.receiver.pullPacket bindNodeId maxOutBuffSize maxOutBuffSizeAligned
          outputBuffer = some (l.receiver, ⟨.error .badNode, outputBuffer, [], none⟩) := by
        simp only [Station.pullPacket, h.connected, not_true_eq_false, if_false, hfind]
      refine ⟨_, _, hpull, .nothing rfl rfl fun bind packet packets hbind _ => ?_⟩
      exact absurd (hfind.symm.trans hbind) (Option.some_ne_none bind).symm
  | some bind =>
      cases hpackets : bind.receivedPackets with
      | nil =>
          have hpull : l.receiver.pullPacket bindNodeId maxOutBuffSize maxOutBuffSizeAligned
              outputBuffer = some (l.receiver, ⟨.ok 0, resized outputBuffer
                (Station.buffSize maxOutBuffSizeAligned).toNat 0, [], none⟩) := by
            simp only [Station.pullPacket, h.connected, not_true_eq_false, if_false, hfind,
              hpackets]
          refine ⟨_, _, hpull, .nothing rfl rfl fun bind' packet packets hbind hwaits => ?_⟩
          cases Option.some.inj (hfind.symm.trans hbind)
          exact absurd (hpackets.symm.trans hwaits) (List.cons_ne_nil packet packets).symm
      | cons packet packets =>
          have hwaits : packet ∈ l.receiver.channelData.queue bind.channel := by
            rw [queue_eq (find_of_findBindNode hfind), hpackets]
            exact List.mem_cons_self
          obtain ⟨header, hchannel, _, hpull⟩ := Station.pullPacket_eq maxOutBuffSize
            maxOutBuffSizeAligned outputBuffer h.connected hfind hpackets (h.queue _ _ hwaits)
          by_cases hlarge : maxOutBuffSize.toNat < (payload packet).length
          · rw [if_pos hlarge] at hpull
            refine ⟨_, _, hpull, .nothing rfl rfl fun bind' packet' packets' hbind hwait => ?_⟩
            cases Option.some.inj (hfind.symm.trans hbind)
            cases hpackets.symm.trans hwait
            exact hlarge
          · rw [if_neg hlarge] at hpull
            have hsize : (UInt32.ofNat (payload packet).length).toNat = (payload packet).length := by
              rw [UInt32.toNat_ofNat']
              exact Nat.mod_eq_of_lt ((not_lt.mp hlarge).trans_lt maxOutBuffSize.toNat_lt)
            refine ⟨_, _, hpull, .packet hfind hpackets (not_lt.mp hlarge) (by simp) ?_ ?_⟩
            · simp only [Pulled.returned, hchannel, hsize, take_output, Station.toNat_buffSize]
            · simp only [Station.toNat_buffSize]

/-- What a packet of the sender does: it is passed over, or it waits at the end of a queue. -/
inductive Handles (l : Link μ) (packet : DataPacket μ) : Station μ → Prop
  | ignored (incoming : ∀ channel bind, l.receiver.channelData.find channel = some bind →
      bind.Accepts l.sender.networkNodeId →
        onChannel channel (l.receiver.incoming packet) = []) :
      Handles l packet l.receiver
  | taken {channel : UInt8} {bind : BindNodeData}
      (sent : IsSent l.sender.networkNodeId channel packet.data)
      (find : l.receiver.channelData.find channel = some bind)
      (incoming : l.receiver.incoming packet = [(channel, payload packet.data)]) :
      Handles l packet (l.receiver.setPackets channel (bind.receivedPackets ++ [packet.data]))

theorem Wf.handles (h : l.Wf) {packet : DataPacket μ} (hmem : packet ∈ l.inFlight) :
    ∃ s sent, l.receiver.handleSecureDataPacket packet = some (s, sent) ∧ l.Handles packet s := by
  obtain ⟨channel, data, destNode, hdata, hlength⟩ := h.inFlight packet hmem
  obtain ⟨sent, hhandle⟩ := Station.handleSecureDataPacket_eq hdata h.connected h.distinct
  have hincoming := Station.incoming_eq (s := l.receiver) hdata
  refine ⟨_, sent, hhandle, ?_⟩
  by_cases haddressed : l.receiver.IsAddressed destNode
  · rw [if_pos haddressed] at hincoming ⊢
    -- a packet that nobody has bound its channel for is not on a channel that is bound for it
    have hignored (hnone : ∀ bind, l.receiver.channelData.find channel = some bind →
        ¬ bind.Accepts l.sender.networkNodeId) : l.Handles packet l.receiver := by
      refine .ignored fun other bind hother haccepts => ?_
      rw [hincoming, onChannel_singleton, if_neg]
      rintro rfl
      exact hnone bind hother haccepts
    rw [Station.deliver]
    cases hfind : l.receiver.channelData.find channel with
    | none => exact hignored fun bind hbind => absurd (hfind.symm.trans hbind) (by simp)
    | some bind =>
        by_cases haccepts : bind.Accepts l.sender.networkNodeId
        · simp only [if_pos haccepts]
          refine .taken ⟨data, destNode, hdata, hlength⟩ hfind ?_
          rw [hincoming, hdata, payload_generateDataPayload]
        · simp only [if_neg haccepts]
          refine hignored fun other hother => ?_
          cases Option.some.inj (hfind.symm.trans hother)
          exact haccepts
  · rw [if_neg haddressed] at hincoming ⊢
    refine .ignored fun _ _ _ _ => ?_
    rw [hincoming]
    rfl

theorem Wf.step {action : LinkAction} (h : l.Wf) (hstep : l.step action = some l') : l'.Wf := by
  cases action with
  | sendTo destNodeId dataChannel dataSize flags inputBuffer =>
      simp only [Link.step] at hstep
      split at hstep
      · cases hstep
      · cases hstep
        exact h
      · next packet hsend =>
          obtain ⟨hpacket, hlength⟩ := Station.sendTo_eq_ok hsend
          cases hstep
          refine { h with inFlight := fun x hx => ?_, once := ?_ }
          · rcases List.mem_append.mp hx with hx | hx
            · exact h.inFlight x hx
            · cases List.mem_singleton.mp hx
              exact ⟨dataChannel, _, _, hpacket, hlength⟩
          · rw [List.flatMap_append, List.flatMap_singleton, Station.incoming_eq hpacket,
              ← List.append_assoc]
            exact h.once.append_right _
  | handle index =>
      simp only [Link.step] at hstep
      split at hstep
      · cases hstep
      · next packet hpacket =>
          obtain ⟨hindex, hget⟩ := List.getElem?_eq_some_iff.mp hpacket
          obtain ⟨s, sent, hhandle, hhandles⟩ := h.handles (List.mem_of_getElem? hpacket)
          rw [hhandle] at hstep
          cases hstep
          have hrest (x : DataPacket μ) (hx : x ∈ l.inFlight.eraseIdx index) :=
            h.inFlight x (List.mem_of_mem_eraseIdx hx)
          have honce : l.accepted.Perm (l.arrived ++ l.receiver.incoming packet ++
              (l.inFlight.eraseIdx index).flatMap l.receiver.incoming) := by
            refine h.once.trans ?_
            rw [List.append_assoc, ← List.flatMap_cons, ← hget]
            exact ((List.getElem_cons_eraseIdx_perm hindex).symm.flatMap_right _).append_left _
          cases hhandles with
          | ignored => exact { h with inFlight := hrest, once := honce }
          | @taken channel bind hsent find =>
              refine { h with inFlight := hrest, once := honce, queue := fun other x hx => ?_ }
              simp only [Station.setPackets, queue_setPackets find] at hx
              split at hx
              · next hother =>
                  rw [hother]
                  rcases List.mem_append.mp hx with hx | hx
                  · refine h.queue channel x ?_
                    rwa [queue_eq find]
                  · rwa [List.mem_singleton.mp hx]
              · exact h.queue other x hx
  | pull bindNodeId maxOutBuffSize maxOutBuffSizeAligned outputBuffer =>
      obtain ⟨s, pulled, hpull, hpulls⟩ :=
        h.pulls bindNodeId maxOutBuffSize maxOutBuffSizeAligned outputBuffer
      rw [Link.step, hpull] at hstep
      cases hstep
      cases hpulls with
      | nothing => exact { h with }
      | @packet _ bind packet packets find waits =>
          have hfind := find_of_findBindNode find
          refine { h with queue := fun channel x hx => ?_ }
          simp only [Station.setPackets, queue_setPackets hfind] at hx
          split at hx
          · next hchannel =>
              refine h.queue channel x ?_
              rw [hchannel, queue_eq hfind, waits]
              exact List.mem_cons_of_mem _ hx
          · exact h.queue channel x hx

/-! ## The order of the packets -/

theorem Start.fifo (h : l.Start) : l.Fifo := by
  intro channel bind _ _
  simp [h.arrived, h.returned, queued, h.queue, onChannel]

theorem queued_setPackets {s : Station μ} {channel other : UInt8} {packets : List (List UInt8)}
    {bind : BindNodeData} (hfind : s.channelData.find channel = some bind) :
    ((s.setPackets channel packets).channelData.queue other).map payload =
      if other = channel then packets.map payload else (s.channelData.queue other).map payload := by
  rw [Station.setPackets, queue_setPackets hfind, apply_ite (List.map payload)]

/-- A pull that fits gives the packet that has waited longest, and what comes in waits behind. -/
theorem Fifo.step {action : LinkAction} (h : l.Fifo) (hwf : l.Wf) (hfits : l.Fits action)
    (hstep : l.step action = some l') : l'.Fifo := by
  cases action with
  | sendTo =>
      simp only [Link.step] at hstep
      split at hstep <;> cases hstep <;> exact h
  | handle index =>
      simp only [Link.step] at hstep
      split at hstep
      · cases hstep
      · next packet hpacket =>
          obtain ⟨s, sent, hhandle, hhandles⟩ := hwf.handles (List.mem_of_getElem? hpacket)
          rw [hhandle] at hstep
          cases hstep
          intro channel bind hfind haccepts
          simp only [onChannel_append]
          cases hhandles with
          | ignored incoming =>
              rw [incoming channel bind hfind haccepts, List.append_nil]
              exact h channel bind hfind haccepts
          | @taken other before sent find incoming =>
              obtain ⟨bind', hfind', hnode⟩ := Station.find_of_setPackets hfind
              have hbefore := h channel bind' hfind' (by rwa [BindNodeData.Accepts, hnode])
              rw [hbefore, incoming, onChannel_singleton, queued, queued, queued_setPackets find]
              by_cases hchannel : other = channel
              · rw [if_pos hchannel, if_pos hchannel.symm, ← hchannel, queue_eq find,
                  List.map_append, List.append_assoc]
                rfl
              · rw [if_neg hchannel, if_neg (Ne.symm hchannel), List.append_nil]
  | pull bindNodeId maxOutBuffSize maxOutBuffSizeAligned outputBuffer =>
      obtain ⟨s, pulled, hpull, hpulls⟩ :=
        hwf.pulls bindNodeId maxOutBuffSize maxOutBuffSizeAligned outputBuffer
      rw [Link.step, hpull] at hstep
      cases hstep
      intro channel bind hfind haccepts
      simp only [onChannel_append]
      cases hpulls with
      | nothing returned =>
          rw [returned]
          exact (h channel bind hfind haccepts).trans (by simp [onChannel, queued])
      | @packet _ found packet packets find waits small _ returned =>
          have hfound := find_of_findBindNode find
          obtain ⟨bind', hfind', hnode⟩ := Station.find_of_setPackets hfind
          have hbefore := h channel bind' hfind' (by rwa [BindNodeData.Accepts, hnode])
          rw [hbefore, returned, onChannel_singleton, queued, queued, queued_setPackets hfound,
            List.take_of_length_le (hfits found packet packets find waits small)]
          by_cases hchannel : found.channel = channel
          · rw [if_pos hchannel, if_pos hchannel.symm, ← hchannel, queue_eq hfound,
              waits, List.append_assoc]
            rfl
          · rw [if_neg hchannel, if_neg (Ne.symm hchannel), List.append_nil]

/-- A pull is as it should be if and only if it fits. -/
theorem Wf.fits_iff (h : l.Wf) (action : LinkAction) : l.Fits action ↔ l.Sound action := by
  cases action with
  | sendTo => exact Iff.rfl
  | handle => exact Iff.rfl
  | pull bindNodeId maxOutBuffSize maxOutBuffSizeAligned outputBuffer =>
      obtain ⟨s, pulled, hpull, hpulls⟩ :=
        h.pulls bindNodeId maxOutBuffSize maxOutBuffSizeAligned outputBuffer
      cases hpulls with
      | nothing returned behind next =>
          constructor
          · refine fun _ => ⟨_, _, hpull, behind, fun _ => rfl, ?_⟩
            intro bind packet packets hfind hwaits hsmall
            exact absurd (next bind packet packets hfind hwaits) (not_lt.mpr hsmall)
          · intro _ bind packet packets hfind hwaits hsmall
            exact absurd (next bind packet packets hfind hwaits) (not_lt.mpr hsmall)
      | @packet _ bind packet packets find waits small succeeds returned behind =>
          constructor
          · intro hfits
            have hlength := hfits bind packet packets find waits small
            refine ⟨_, _, hpull, ?_, fun hfails => absurd hfails succeeds, ?_⟩
            · rw [behind, List.drop_of_length_le hlength]
            · intro bind' packet' packets' hfind hwaits _
              cases Option.some.inj (find.symm.trans hfind)
              cases waits.symm.trans hwaits
              exact ⟨by rw [returned, List.take_of_length_le hlength], rfl⟩
          · rintro ⟨s, pulled', hpull', hsound⟩ bind' packet' packets' hfind hwaits hsmall
            cases Option.some.inj (find.symm.trans hfind)
            cases waits.symm.trans hwaits
            cases Option.some.inj (hpull.symm.trans hpull')
            exact List.drop_eq_nil_iff.mp (behind.symm.trans hsound.behind)

/-- Packets are delivered as they are, each of them once and in the order in which they have come
in, as long as every pull fits. -/
theorem delivers_iff {start : Link μ} {steps : List (Link μ × LinkAction)} (hstart : start.Start)
    (hrun : Run Link.step start steps l) :
    (∀ x ∈ steps, x.1.Fits x.2) ↔ (∀ x ∈ steps, x.1.Sound x.2) ∧ l.Delivers := by
  have hwf := hrun.invariant hstart.wf fun _ _ _ => Wf.step
  have hiff : (∀ x ∈ steps, x.1.Fits x.2) ↔ ∀ x ∈ steps, x.1.Sound x.2 :=
    hrun.conditions_iff hstart.wf (fun _ _ _ => Wf.step) fun _ action h => h.fits_iff action
  constructor
  · intro hfits
    have hfifo := hrun.invariant_of (C := fun l action => l.Fits action)
      (I := fun l => l.Wf ∧ l.Fifo) ⟨hstart.wf, hstart.fifo⟩
      (fun _ _ _ h hfits hstep => ⟨h.1.step hstep, h.2.step h.1 hfits hstep⟩) hfits
    refine ⟨hiff.mp hfits, ?_, ?_, hwf.1.once, hfifo.1.2⟩
    · intro packet hpacket
      obtain ⟨s, sent, hhandle, _⟩ := hwf.1.handles hpacket
      rw [hhandle, Option.isSome_some]
    · intro bindNodeId maxOutBuffSize maxOutBuffSizeAligned outputBuffer
      obtain ⟨s, pulled, hpull, _⟩ :=
        hwf.1.pulls bindNodeId maxOutBuffSize maxOutBuffSizeAligned outputBuffer
      rw [hpull, Option.isSome_some]
  · exact fun hsound => hiff.mpr hsound.1

/-- A host, and a client that has bound channel 7 for everybody. -/
def greeting : Link Nat where
  sender :=
    { connectionStatus := { status := .connectedAsHost, networkNodeId := 1 }
      nodeMap := [(20, ⟨true, false, 2⟩)]
      hostMacAddress := 10
      channelData := ⟨[], List.nodup_nil⟩ }
  receiver :=
    { connectionStatus := { status := .connectedAsClient, networkNodeId := 2 }
      hostMacAddress := 10
      channelData := ⟨[⟨3, 7, broadcastNetworkNodeId, []⟩], List.nodup_singleton _⟩ }

theorem start_greeting : greeting.Start where
  connected := .inr (.inl rfl)
  distinct := by decide
  queue := by
    intro channel
    by_cases h : channel = 7
    · rw [h]
      rfl
    · simp [greeting, ChannelData.queue, ChannelData.find, Ne.symm h]
  inFlight := rfl
  accepted := rfl
  arrived := rfl
  returned := rfl

/-- Five bytes are sent and come in. -/
def fiveBytes : List LinkAction := [.sendTo 2 7 5 0 [1, 2, 3, 4, 5], .handle 0]

/-- They are pulled into a buffer of eight bytes. -/
theorem delivers_fiveBytes : ∃ steps l, Run Link.step greeting steps l ∧
    l.returned = [(7, [1, 2, 3, 4, 5])] ∧
      ((∀ x ∈ steps, x.1.Fits x.2) ↔ (∀ x ∈ steps, x.1.Sound x.2) ∧ l.Delivers) := by
  obtain ⟨steps, _, hrun⟩ := run_of_after
    (rfl : after Link.step greeting (fiveBytes ++ [.pull 3 5 2 []]) = some _)
  exact ⟨steps, _, hrun, rfl, delivers_iff start_greeting hrun⟩

/-- The size is checked against five bytes, and the buffer has four of them. -/
theorem pull_overruns : ∃ steps l s pulled, Run Link.step greeting steps l ∧
    l.receiver.pullPacket 3 5 1 [] = some (s, pulled) ∧ pulled.outputBuffer = [1, 2, 3, 4] ∧
      pulled.behind = [5] ∧ ¬ l.Sound (.pull 3 5 1 []) := by
  obtain ⟨steps, _, hrun⟩ := run_of_after (rfl : after Link.step greeting fiveBytes = some _)
  refine ⟨steps, _, _, _, hrun, rfl, rfl, rfl, ?_⟩
  rintro ⟨s, pulled, hpull, hsound⟩
  cases Option.some.inj hpull
  exact absurd hsound.behind (List.cons_ne_nil _ _)

end Link

end Cytrus.Nwm
