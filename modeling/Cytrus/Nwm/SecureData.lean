import Cytrus.Nwm.Uds

/-!
# Data packets

What a program sends to another node of the network travels behind two headers,
and waits at the node in the queue of its channel until the program there pulls
it. The caller of `PullPacketHLE` gives the size of its buffer twice; the packet
is checked against one size, and the buffer is made with the other one.

## Main results

* `sendTo_eq_ok`: what is sent when a call is accepted
* `handleSecureDataPacket_eq`: what a packet does to the queues
* `pullPacket_eq`: what a pulled packet gives, and what is written behind the buffer

## Implementation notes

`channel_data` is the list of its values in the order in which they are visited.
A call has no result when an assertion fails or when it reads behind a packet.
Events and locks are left out.
-/

namespace Cytrus.Nwm

open Support

/-! ## The headers -/

def etherTypeSecureData : UInt16 := 0x876D

def generateLLCHeader (protocol : UInt16) : List UInt8 :=
  [0xAA, 0xAA, 3, 0, 0, 0] ++ bigEndian16 protocol

def sizeofLLCHeader : Nat := 8

structure SecureDataHeader where
  protocolSize : UInt16
  securedataSize : UInt16
  isManagement : UInt8
  dataChannel : UInt8
  sequenceNumber : UInt16
  destNodeId : UInt16
  srcNodeId : UInt16
  deriving DecidableEq

def sizeofSecureDataHeader : Nat := 14

namespace SecureDataHeader

variable (header : SecureDataHeader)

def getActualDataSize : UInt32 :=
  header.protocolSize.toUInt32 - UInt32.ofNat sizeofSecureDataHeader

def bytes : List UInt8 :=
  bigEndian16 header.protocolSize ++ ([0, 0] ++ (bigEndian16 header.securedataSize ++
    ([header.isManagement, header.dataChannel] ++ (bigEndian16 header.sequenceNumber ++
      (bigEndian16 header.destNodeId ++ bigEndian16 header.srcNodeId)))))

/-- The header that 14 bytes stand for. -/
def ofBytes (bytes : List UInt8) : SecureDataHeader where
  protocolSize := ofBigEndian16 (bytes.take 2)
  securedataSize := ofBigEndian16 ((bytes.drop 4).take 2)
  isManagement := (bytes.drop 6).headD 0
  dataChannel := (bytes.drop 7).headD 0
  sequenceNumber := ofBigEndian16 ((bytes.drop 8).take 2)
  destNodeId := ofBigEndian16 ((bytes.drop 10).take 2)
  srcNodeId := ofBigEndian16 ((bytes.drop 12).take 2)

@[simp] theorem length_bytes : header.bytes.length = sizeofSecureDataHeader := by
  simp [bytes, sizeofSecureDataHeader]

theorem ofBytes_bytes : ofBytes header.bytes = header := by
  obtain ⟨a, b, hprotocol⟩ := List.length_eq_two.mp (length_bigEndian16 header.protocolSize)
  obtain ⟨c, d, hsecuredata⟩ := List.length_eq_two.mp (length_bigEndian16 header.securedataSize)
  obtain ⟨e, f, hsequence⟩ := List.length_eq_two.mp (length_bigEndian16 header.sequenceNumber)
  obtain ⟨g, h, hdest⟩ := List.length_eq_two.mp (length_bigEndian16 header.destNodeId)
  obtain ⟨i, j, hsrc⟩ := List.length_eq_two.mp (length_bigEndian16 header.srcNodeId)
  have hparts : header.bytes =
      [a, b, 0, 0, c, d, header.isManagement, header.dataChannel, e, f, g, h, i, j] := by
    simp only [bytes, hprotocol, hsecuredata, hsequence, hdest, hsrc, List.cons_append,
      List.nil_append]
  rw [hparts]
  simp only [ofBytes, List.take_succ_cons, List.take_zero, List.drop_succ_cons, List.drop_zero,
    List.headD_cons]
  simp only [← hprotocol, ← hsecuredata, ← hsequence, ← hdest, ← hsrc, ofBigEndian16_bigEndian16]

end SecureDataHeader

/-- `GenerateSecureDataHeader`, as the header itself. -/
def generateSecureDataHeader (dataSize : UInt16) (channel : UInt8)
    (destNodeId srcNodeId sequenceNumber : UInt16) : SecureDataHeader where
  protocolSize := dataSize + UInt16.ofNat sizeofSecureDataHeader
  securedataSize := dataSize + UInt16.ofNat sizeofSecureDataHeader - 4
  isManagement := 0
  dataChannel := channel
  sequenceNumber := sequenceNumber
  destNodeId := destNodeId
  srcNodeId := srcNodeId

def generateDataPayload (data : List UInt8) (channel : UInt8)
    (destNode srcNode sequenceNumber : UInt16) : List UInt8 :=
  generateLLCHeader etherTypeSecureData ++
    (generateSecureDataHeader (UInt16.ofNat data.length) channel destNode srcNode
      sequenceNumber).bytes ++ data

/-- `ParseSecureDataHeader`, which reads behind a short frame. -/
def parseSecureDataHeader (data : List UInt8) : Option SecureDataHeader :=
  (slice data sizeofLLCHeader sizeofSecureDataHeader).map SecureDataHeader.ofBytes

section Payload

variable {data : List UInt8} {channel : UInt8} {destNode srcNode sequenceNumber : UInt16}

@[simp] theorem length_generateLLCHeader (protocol : UInt16) :
    (generateLLCHeader protocol).length = sizeofLLCHeader := by
  simp [generateLLCHeader, sizeofLLCHeader]

theorem parseSecureDataHeader_generated :
    parseSecureDataHeader (generateDataPayload data channel destNode srcNode sequenceNumber) =
      some (generateSecureDataHeader (UInt16.ofNat data.length) channel destNode srcNode
        sequenceNumber) := by
  have hslice := slice_append_length (generateLLCHeader etherTypeSecureData)
    (generateSecureDataHeader (UInt16.ofNat data.length) channel destNode srcNode
      sequenceNumber).bytes data
  rw [length_generateLLCHeader, SecureDataHeader.length_bytes] at hslice
  rw [parseSecureDataHeader, generateDataPayload, hslice, Option.map_some,
    SecureDataHeader.ofBytes_bytes]

theorem getActualDataSize_generated {dataSize : Nat} (h : dataSize + 14 < 2 ^ 16) :
    (generateSecureDataHeader (UInt16.ofNat dataSize) channel destNode srcNode
      sequenceNumber).getActualDataSize = UInt32.ofNat dataSize := by
  apply UInt32.toNat_inj.mp
  simp only [generateSecureDataHeader, SecureDataHeader.getActualDataSize, sizeofSecureDataHeader,
    UInt32.toNat_sub, UInt16.toNat_toUInt32, UInt16.toNat_add, UInt16.toNat_ofNat',
    UInt32.toNat_ofNat']
  omega

theorem slice_generated :
    slice (generateDataPayload data channel destNode srcNode sequenceNumber)
      (sizeofLLCHeader + sizeofSecureDataHeader) data.length = some data := by
  have hslice := slice_append_length (generateLLCHeader etherTypeSecureData ++
    (generateSecureDataHeader (UInt16.ofNat data.length) channel destNode srcNode
      sequenceNumber).bytes) data []
  rw [List.length_append, length_generateLLCHeader, SecureDataHeader.length_bytes,
    List.append_nil] at hslice
  exact hslice

end Payload

/-! ## A node -/

def broadcastNetworkNodeId : UInt16 := 0xFFFF

def hostDestNodeId : UInt16 := 1

structure BindNodeData where
  bindNodeId : UInt32
  channel : UInt8
  networkNodeId : UInt16
  receivedPackets : List (List UInt8) := []

structure ChannelData where
  binds : List BindNodeData
  nodup : (binds.map BindNodeData.channel).Nodup

namespace ChannelData

variable (channels : ChannelData)

def find (channel : UInt8) : Option BindNodeData :=
  channels.binds.find? fun bind => bind.channel = channel

/-- What `std::find_if` finds for a bind node. -/
def findBindNode (bindNodeId : UInt32) : Option BindNodeData :=
  channels.binds.find? fun bind => bind.bindNodeId = bindNodeId

/-- Other packets for a channel. -/
def setPackets (channel : UInt8) (packets : List (List UInt8)) : ChannelData where
  binds := channels.binds.map fun bind =>
    if bind.channel = channel then { bind with receivedPackets := packets } else bind
  nodup := by
    rw [List.map_map]
    have hchannel : BindNodeData.channel ∘ (fun bind : BindNodeData =>
        if bind.channel = channel then { bind with receivedPackets := packets } else bind) =
          BindNodeData.channel := by
      funext bind
      simp only [Function.comp_apply, apply_ite BindNodeData.channel, ite_self]
    rw [hchannel]
    exact channels.nodup

/-- The packets that wait on a channel. -/
def queue (channel : UInt8) : List (List UInt8) :=
  ((channels.find channel).map BindNodeData.receivedPackets).getD []

variable {channels} {channel other : UInt8} {packets : List (List UInt8)} {bind : BindNodeData}

theorem find_setPackets :
    (channels.setPackets channel packets).find other =
      (channels.find other).map fun bind =>
        if other = channel then { bind with receivedPackets := packets } else bind := by
  obtain ⟨binds, nodup⟩ := channels
  simp only [find, setPackets]
  clear nodup
  induction binds with
  | nil => rfl
  | cons bind binds ih =>
      have hchannel : (if bind.channel = channel then { bind with receivedPackets := packets }
          else bind).channel = bind.channel := by
        rw [apply_ite BindNodeData.channel, ite_self]
      rw [List.map_cons, List.find?_cons, List.find?_cons, hchannel]
      by_cases hother : bind.channel = other
      · simp [hother]
      · simp only [hother, decide_false]
        exact ih

theorem queue_setPackets (hfind : channels.find channel = some bind) :
    (channels.setPackets channel packets).queue other =
      if other = channel then packets else channels.queue other := by
  rw [queue, find_setPackets]
  split
  · next h => rw [h, hfind, Option.map_some, Option.map_some, Option.getD_some]
  · rw [Option.map_id']
    rfl

theorem queue_eq (hfind : channels.find channel = some bind) :
    channels.queue channel = bind.receivedPackets := by
  rw [queue, hfind, Option.map_some, Option.getD_some]

theorem channel_of_find (hfind : channels.find channel = some bind) : bind.channel = channel := by
  simpa using List.find?_some hfind

theorem find_of_findBindNode {bindNodeId : UInt32}
    (hfind : channels.findBindNode bindNodeId = some bind) :
    channels.find bind.channel = some bind := by
  have hmem := List.mem_of_find?_eq_some hfind
  have hsome : (channels.find bind.channel).isSome :=
    List.find?_isSome.mpr ⟨bind, hmem, decide_eq_true rfl⟩
  obtain ⟨found, hfound⟩ := Option.isSome_iff_exists.mp hsome
  have hsame := List.inj_on_of_nodup_map channels.nodup (List.mem_of_find?_eq_some hfound) hmem
    (channel_of_find hfound)
  rw [hfound, hsame]

end ChannelData

/-- A data packet on its way; without a destination it is broadcast. -/
structure DataPacket (μ : Type*) where
  destination : Option μ
  channel : UInt8
  data : List UInt8

/-- The part of `NWM_UDS` that data packets pass through, with the nodes that it knows in the
order of their addresses. -/
structure Station (μ : Type*) where
  connectionStatus : ConnectionStatus
  nodeMap : List (μ × Node) := []
  hostMacAddress : μ
  networkChannel : UInt8 := 11
  channelData : ChannelData

/-- What `SendToHLE` refuses. -/
inductive SendError
  | notConnected
  | badNode
  | badMacAddress
  | packetSizeTooLarge
  deriving DecidableEq

/-- What `PullPacketHLE` refuses. -/
inductive RecvError
  | notConnected
  | badNode
  | packetSizeTooLarge
  deriving DecidableEq

/-- What `PullPacketHLE` gives, and what it writes behind the buffer. -/
structure Pulled where
  result : Except RecvError UInt32
  outputBuffer : List UInt8
  behind : List UInt8 := []
  secureData : Option SecureDataHeader := none

namespace Station

variable {μ : Type*} (s : Station μ)

def networkNodeId : UInt16 := s.connectionStatus.networkNodeId

/-- Whether the node can get packets. -/
def IsConnected : Prop :=
  s.connectionStatus.status = .connectedAsHost ∨ s.connectionStatus.status = .connectedAsClient ∨
    s.connectionStatus.status = .connectedAsSpectator

instance : Decidable s.IsConnected := inferInstanceAs (Decidable (_ ∨ _ ∨ _))

/-- Whether packets for the node id `destNodeId` are for the node. -/
def IsAddressed (destNodeId : UInt16) : Prop :=
  destNodeId = s.networkNodeId ∨ destNodeId = broadcastNetworkNodeId

instance (destNodeId : UInt16) : Decidable (s.IsAddressed destNodeId) :=
  inferInstanceAs (Decidable (_ ∨ _))

/-- The node with other packets on a channel. -/
def setPackets (channel : UInt8) (packets : List (List UInt8)) : Station μ :=
  { s with channelData := s.channelData.setPackets channel packets }

/-- `GetNodeMacAddress`; the address of everybody is `none`. -/
def getNodeMacAddress (destNodeId : UInt16) (flags : UInt8) : Option (Option μ) :=
  if flags &&& 2 ≠ 0 ∨ destNodeId = broadcastNetworkNodeId then some none
  else if destNodeId = hostDestNodeId then some (some s.hostMacAddress)
  else
    (s.nodeMap.find? fun entry => entry.2.nodeId = destNodeId ∧ entry.2.connected).map fun entry =>
      some entry.1

/-- The largest size of the data of a packet. -/
def maxSize : UInt32 := 0x5C6

/-- `SendToHLE`. -/
def sendTo (destNodeId : UInt32) (dataChannel : UInt8) (dataSize : UInt32) (flags : UInt8)
    (inputBuffer : List UInt8) : Option (Except SendError (DataPacket μ)) :=
  if inputBuffer.length < dataSize.toNat then none
  else if s.connectionStatus.status ≠ .connectedAsClient ∧
      s.connectionStatus.status ≠ .connectedAsHost then
    some (.error .notConnected)
  else if destNodeId = 0 then some (.error .badNode)
  else if destNodeId = s.networkNodeId.toUInt32 then some (.error .badNode)
  else
    match s.getNodeMacAddress destNodeId.toUInt16 flags with
    | none => some (.error .badMacAddress)
    | some destination =>
        if maxSize < dataSize then some (.error .packetSizeTooLarge)
        else some (.ok {
          destination := destination
          channel := s.networkChannel
          data := generateDataPayload (inputBuffer.take dataSize.toNat) dataChannel
            destNodeId.toUInt16 s.networkNodeId 0 })

/-- `HandleSecureDataPacket`, with the packets that are passed on. -/
def handleSecureDataPacket (packet : DataPacket μ) : Option (Station μ × List (DataPacket μ)) :=
  match parseSecureDataHeader packet.data with
  | none => none
  | some secureData =>
      if ¬ s.IsConnected then some (s, [])
      else if secureData.srcNodeId = s.networkNodeId then some (s, [])
      else if ¬ s.IsAddressed secureData.destNodeId then
        if packet.destination.isSome ∧ s.connectionStatus.status ≠ .connectedAsHost then
          some (s, [])
        else if s.connectionStatus.status = .connectedAsHost ∧
            secureData.destNodeId ≠ broadcastNetworkNodeId then
          some (s, [{ packet with destination := none }])
        else some (s, [])
      else if secureData.isManagement ≠ 0 then none
      else
        match s.channelData.find secureData.dataChannel with
        | none => some (s, [])
        | some bind =>
            if bind.networkNodeId ≠ broadcastNetworkNodeId ∧
                bind.networkNodeId ≠ secureData.srcNodeId then some (s, [])
            else
              some (s.setPackets secureData.dataChannel (bind.receivedPackets ++ [packet.data]), [])

/-- The size of the buffer that `PullPacketHLE` makes. -/
def buffSize (maxOutBuffSizeAligned : UInt32) : UInt32 := (min maxOutBuffSizeAligned 0x172) <<< 2

/-- `PullPacketHLE`. -/
def pullPacket (bindNodeId maxOutBuffSize maxOutBuffSizeAligned : UInt32)
    (outputBuffer : List UInt8) : Option (Station μ × Pulled) :=
  let buffSize := (buffSize maxOutBuffSizeAligned).toNat
  if ¬ s.IsConnected then some (s, { result := .error .notConnected, outputBuffer := outputBuffer })
  else
    match s.channelData.findBindNode bindNodeId with
    | none => some (s, { result := .error .badNode, outputBuffer := outputBuffer })
    | some bind =>
        match bind.receivedPackets with
        | [] => some (s, { result := .ok 0, outputBuffer := resized outputBuffer buffSize 0 })
        | nextPacket :: packets =>
            match parseSecureDataHeader nextPacket with
            | none => none
            | some secureData =>
                let dataSize := secureData.getActualDataSize
                if maxOutBuffSize < dataSize then
                  some (s, {
                    result := .error .packetSizeTooLarge
                    outputBuffer := outputBuffer
                    secureData := some secureData })
                else
                  match slice nextPacket (sizeofLLCHeader + sizeofSecureDataHeader)
                      dataSize.toNat with
                  | none => none
                  | some data =>
                      some (s.setPackets bind.channel packets, {
                        result := .ok dataSize
                        outputBuffer := data.take buffSize ++
                          (resized outputBuffer buffSize 0).drop data.length
                        behind := data.drop buffSize
                        secureData := some secureData })

end Station

/-! ## What the calls do -/

/-- The source node that a bind node takes packets of. -/
def BindNodeData.Accepts (bind : BindNodeData) (srcNodeId : UInt16) : Prop :=
  bind.networkNodeId = broadcastNetworkNodeId ∨ bind.networkNodeId = srcNodeId

instance (bind : BindNodeData) (srcNodeId : UInt16) : Decidable (bind.Accepts srcNodeId) :=
  inferInstanceAs (Decidable (_ ∨ _))

/-- What lies behind the headers of a packet. -/
def payload (data : List UInt8) : List UInt8 :=
  data.drop (sizeofLLCHeader + sizeofSecureDataHeader)

@[simp] theorem payload_generateDataPayload {data : List UInt8} {channel : UInt8}
    {destNode srcNode sequenceNumber : UInt16} :
    payload (generateDataPayload data channel destNode srcNode sequenceNumber) = data := by
  rw [payload, generateDataPayload, List.drop_left']
  rw [List.length_append, length_generateLLCHeader, SecureDataHeader.length_bytes]

/-- A packet of `SendToHLE` that the node `srcNode` sends on a channel. -/
def IsSent (srcNode : UInt16) (channel : UInt8) (packet : List UInt8) : Prop :=
  ∃ data destNode, packet = generateDataPayload data channel destNode srcNode 0 ∧
    data.length ≤ Station.maxSize.toNat

namespace Station

variable {μ : Type*} {s s' : Station μ} {packet : DataPacket μ}

/-- What is sent when a call is accepted. -/
theorem sendTo_eq_ok {destNodeId dataSize : UInt32} {dataChannel flags : UInt8}
    {inputBuffer : List UInt8}
    (h : s.sendTo destNodeId dataChannel dataSize flags inputBuffer = some (.ok packet)) :
    packet.data = generateDataPayload (inputBuffer.take dataSize.toNat) dataChannel
        destNodeId.toUInt16 s.networkNodeId 0 ∧
      (inputBuffer.take dataSize.toNat).length ≤ maxSize.toNat := by
  rw [sendTo] at h
  cases haddress : s.getNodeMacAddress destNodeId.toUInt16 flags with
  | none =>
      rw [haddress] at h
      split_ifs at h <;> cases h
  | some destination =>
      rw [haddress] at h
      dsimp only at h
      split_ifs at h with _ _ _ _ hsize <;> cases h
      refine ⟨rfl, (List.length_take_le _ _).trans ?_⟩
      exact UInt32.le_iff_toNat_le.mp (UInt32.not_lt.mp hsize)

/-- The node after data of a node has come in on a channel. -/
def deliver (s : Station μ) (channel : UInt8) (srcNode : UInt16) (data : List UInt8) : Station μ :=
  match s.channelData.find channel with
  | none => s
  | some bind =>
      if bind.Accepts srcNode then s.setPackets channel (bind.receivedPackets ++ [data]) else s

/-- What a packet of another node does to the queues. -/
theorem handleSecureDataPacket_eq {data : List UInt8} {channel : UInt8} {destNode srcNode : UInt16}
    (hpacket : packet.data = generateDataPayload data channel destNode srcNode 0)
    (hs : s.IsConnected) (hsrc : srcNode ≠ s.networkNodeId) :
    ∃ sent, s.handleSecureDataPacket packet = some
      (if s.IsAddressed destNode then s.deliver channel srcNode packet.data else s, sent) := by
  have hparse : parseSecureDataHeader packet.data =
      some (generateSecureDataHeader (UInt16.ofNat data.length) channel destNode srcNode 0) := by
    rw [hpacket, parseSecureDataHeader_generated]
  simp only [handleSecureDataPacket, hparse, generateSecureDataHeader, hs, not_true_eq_false,
    if_false, if_neg hsrc]
  by_cases haddressed : s.IsAddressed destNode
  · simp only [haddressed, not_true_eq_false, if_false, if_true, ne_eq, deliver]
    cases s.channelData.find channel with
    | none => exact ⟨[], rfl⟩
    | some bind =>
        by_cases haccepts : bind.Accepts srcNode
        · have hnot : ¬ (¬ bind.networkNodeId = broadcastNetworkNodeId ∧
              ¬ bind.networkNodeId = srcNode) := by
            rw [← not_or, not_not]
            exact haccepts
          exact ⟨[], by simp only [if_neg hnot, if_pos haccepts]⟩
        · exact ⟨[], by simp only [if_pos (not_or.mp haccepts), if_neg haccepts]⟩
  · simp only [haddressed, not_false_eq_true, if_true, if_false]
    split_ifs
    · exact ⟨[], rfl⟩
    · exact ⟨_, rfl⟩
    · exact ⟨[], rfl⟩

/-- What `PullPacketHLE` does where a packet waits that was sent. -/
theorem pullPacket_eq {srcNode : UInt16} {bind : BindNodeData} {next : List UInt8}
    {packets : List (List UInt8)} {bindNodeId : UInt32}
    (maxOutBuffSize maxOutBuffSizeAligned : UInt32) (outputBuffer : List UInt8) (hs : s.IsConnected)
    (hfind : s.channelData.findBindNode bindNodeId = some bind)
    (hpackets : bind.receivedPackets = next :: packets) (hnext : IsSent srcNode bind.channel next) :
    ∃ header : SecureDataHeader, header.dataChannel = bind.channel ∧ header.srcNodeId = srcNode ∧
      s.pullPacket bindNodeId maxOutBuffSize maxOutBuffSizeAligned outputBuffer = some
        (if maxOutBuffSize.toNat < (payload next).length then
          (s, { result := .error .packetSizeTooLarge
                outputBuffer := outputBuffer
                secureData := some header })
        else
          (s.setPackets bind.channel packets, {
            result := .ok (UInt32.ofNat (payload next).length)
            outputBuffer := (payload next).take (buffSize maxOutBuffSizeAligned).toNat ++
              (resized outputBuffer (buffSize maxOutBuffSizeAligned).toNat 0).drop
                (payload next).length
            behind := (payload next).drop (buffSize maxOutBuffSizeAligned).toNat
            secureData := some header })) := by
  obtain ⟨data, destNode, rfl, hlength⟩ := hnext
  have hsmall : data.length ≤ 0x5C6 := hlength
  have hsize : (UInt32.ofNat data.length).toNat = data.length := by
    rw [UInt32.toNat_ofNat']
    exact Nat.mod_eq_of_lt (by omega)
  refine ⟨generateSecureDataHeader (UInt16.ofNat data.length) bind.channel destNode srcNode 0, rfl,
    rfl, ?_⟩
  simp only [pullPacket, hs, not_true_eq_false, if_false, hfind, hpackets,
    parseSecureDataHeader_generated, getActualDataSize_generated (by omega : data.length + 14 < 2 ^ 16),
    hsize, slice_generated, payload_generateDataPayload, UInt32.lt_iff_toNat_lt]
  split <;> rfl

/-- The buffer of `PullPacketHLE` has four bytes for each of its units, and never more than the
largest packet needs. -/
theorem toNat_buffSize (maxOutBuffSizeAligned : UInt32) :
    (buffSize maxOutBuffSizeAligned).toNat = 4 * min maxOutBuffSizeAligned.toNat 0x172 := by
  have hmin : (min maxOutBuffSizeAligned 0x172).toNat = min maxOutBuffSizeAligned.toNat 0x172 :=
    UInt32.toNat_min ..
  have hbound : min maxOutBuffSizeAligned.toNat 0x172 ≤ 0x172 := min_le_right _ _
  have hshift : (2 : UInt32).toNat % 32 = 2 := rfl
  rw [buffSize, UInt32.toNat_shiftLeft, hmin, Nat.shiftLeft_eq, hshift]
  omega

end Station

end Cytrus.Nwm
