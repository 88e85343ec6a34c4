import Mathlib.Tactic
import Cytrus.Nwm.Beacon

/-!
# A console in a local network

The handlers of `NWM_UDS` for the frames of a network: the handshake in which a
client joins it, and what is done when a client leaves.

## Main definitions

* `Device`: the state of `NWM_UDS`
* `Device.handle`: `OnWifiPacketReceived`

## Implementation notes

Addresses are of any type. `node_map` is a partial function on them, and so is
what `BroadcastNodeMap` makes of it. The numbers of nodes are bounded by
`max_nodes`, so they are natural numbers.
-/

namespace Cytrus.Nwm

inductive NetworkStatus
  | notConnected
  | connectedAsHost
  | connecting
  | connectedAsClient
  | connectedAsSpectator
  deriving DecidableEq

/-- `ConnectionType`, or what a byte is that is none. -/
inductive ConnectionType
  | client
  | spectator
  | unknown
  deriving DecidableEq

structure ConnectionStatus where
  status : NetworkStatus := .notConnected
  networkNodeId : UInt16 := 0
  changedNodes : BitVec 16 := 0
  nodes : Fin 16 → UInt16 := fun _ => 0
  totalNodes : Nat := 0
  maxNodes : Nat := 0
  nodeBitmask : BitVec 16 := 0

structure Node where
  connected : Bool := false
  spec : Bool := false
  nodeId : UInt16 := 0

/-- A node that `BroadcastNodeMap` sends. -/
def Node.isClient (node : Node) : Bool := node.connected && !node.spec

def nodeIDSpec : UInt16 := 0

def NodeInfo.zero : NodeInfo := ⟨0, fun _ => 0, 0⟩

def nodeBit (index : Nat) : BitVec 16 := 1#16 <<< index

/-- The frames of the handshake. -/
inductive Frame (μ : Type*)
  | authentication (seq1 : Bool)
  | associationResponse (associationId : UInt16)
  | eapolStart (associationId : UInt16) (connectionType : ConnectionType) (node : NodeInfo)
  | eapolLogoff (assignedNodeId : UInt16) (connectedNodes maxNodes : Nat) (nodes : List NodeInfo)
  | nodeMap (nodes : μ → Option UInt16)
  | deauthentication

/-- A frame on its way; without a destination it is broadcast. -/
structure WifiPacket (μ : Type*) where
  destination : Option μ
  frame : Frame μ

/-- Why the program is stopped. -/
inductive Stop
  | assertion
  | unreachable
  deriving DecidableEq

/-- The state of `NWM_UDS`. Of `network_info` there are the host and the numbers of nodes. -/
structure Device (μ : Type*) where
  connectionStatus : ConnectionStatus := {}
  nodeInfo : List NodeInfo := []
  nodeMap : μ → Option Node := fun _ => none
  hostMacAddress : μ
  totalNodes : Nat := 0
  maxNodes : Nat := 0
  connType : ConnectionType := .client
  currentNode : NodeInfo

namespace Device

variable {μ : Type*} [DecidableEq μ] (d : Device μ)

def initializeDevice (node : NodeInfo) : Device μ :=
  { d with connectionStatus := {}, nodeInfo := [node], currentNode := node }

/-- `BeginHostingNetwork` at the address `mac`. -/
def beginHostingNetwork (mac : μ) (maxNodes : Nat) : Except Stop (Device μ) :=
  if ¬ 1 < maxNodes then .error .assertion
  else
    let currentNode := { d.currentNode with networkNodeId := 1 }
    .ok { d with
      connectionStatus :=
        { status := .connectedAsHost
          networkNodeId := 1
          changedNodes := d.connectionStatus.changedNodes ||| nodeBit 0
          nodes := Function.update d.connectionStatus.nodes 0 1
          totalNodes := 1
          maxNodes := maxNodes
          nodeBitmask := d.connectionStatus.nodeBitmask ||| nodeBit 0 }
      nodeInfo := (List.replicate maxNodes .zero).set 0 currentNode
      hostMacAddress := mac
      totalNodes := 1
      maxNodes := maxNodes
      currentNode := currentNode }

/-- `GetNextAvailableNodeId`, as the index of the node. -/
def nextAvailableIndex : Option Nat :=
  (List.range d.connectionStatus.maxNodes).find? fun index =>
    d.connectionStatus.nodeBitmask &&& nodeBit index = 0

def broadcastNodeMap : WifiPacket μ :=
  ⟨none, .nodeMap fun mac => (d.nodeMap mac).bind fun node =>
    if node.isClient then some node.nodeId else none⟩

def handleNodeMapPacket (nodes : μ → Option UInt16) : Device μ :=
  if d.connectionStatus.status = .connectedAsHost then d
  else { d with nodeMap := fun mac => (nodes mac).map fun id => ⟨true, false, id⟩ }

/-- `HandleAssociationResponseFrame` for a frame of the address `sender`. -/
def handleAssociationResponseFrame (sender : μ) (associationId : UInt16) : List (WifiPacket μ) :=
  if d.connectionStatus.status ≠ .connecting then []
  else [⟨some sender, .eapolStart associationId d.connType { d.currentNode with networkNodeId := 0 }⟩]

/-- The books of a host, with a client in the seat of that index. -/
def seatClient (sender : μ) (index : Nat) (node : NodeInfo) : Device μ :=
  { d with
    connectionStatus :=
      { d.connectionStatus with
        nodeBitmask := d.connectionStatus.nodeBitmask ||| nodeBit index
        changedNodes := d.connectionStatus.changedNodes ||| nodeBit index
        nodes := fun i =>
          if i.val = index then UInt16.ofNat (index + 1) else d.connectionStatus.nodes i
        totalNodes := d.connectionStatus.totalNodes + 1 }
    nodeInfo := d.nodeInfo.set index node
    totalNodes := d.totalNodes + 1
    nodeMap := Function.update d.nodeMap sender (some ⟨true, false, UInt16.ofNat (index + 1)⟩) }

/-- `GenerateEAPoLLogoffFrame`, broadcast. -/
def eapolLogoff (assignedNodeId : UInt16) : WifiPacket μ :=
  ⟨none, .eapolLogoff assignedNodeId d.totalNodes d.maxNodes d.nodeInfo⟩

/-- `HandleEAPoLPacket` for an EAPoL-Start frame of the address `sender`. -/
def handleEAPoLStart (sender : μ) (connectionType : ConnectionType) (node : NodeInfo) :
    Except Stop (Device μ × List (WifiPacket μ)) :=
  if d.connectionStatus.status ≠ .connectedAsHost then .ok (d, [])
  else
    match d.nodeMap sender with
    | none => .ok (d, [])
    | some entry =>
        if entry.connected then .ok (d, [])
        else if d.connectionStatus.maxNodes = d.connectionStatus.totalNodes then .error .assertion
        else
          match connectionType with
          | .client =>
              match d.nextAvailableIndex with
              | none => .error .unreachable
              | some index =>
                  let id := UInt16.ofNat (index + 1)
                  let d' := d.seatClient sender index { node with networkNodeId := id }
                  .ok (d', [d'.broadcastNodeMap, d'.eapolLogoff id])
          | .spectator =>
              let d' := { d with
                nodeMap := Function.update d.nodeMap sender (some ⟨true, true, nodeIDSpec⟩) }
              .ok (d', [d'.eapolLogoff node.networkNodeId])
          | .unknown => .ok (d, [d.eapolLogoff node.networkNodeId])

/-- One node of an EAPoL-Logoff frame. -/
def noteNode (node : NodeInfo) : Device μ :=
  if node.networkNodeId = 0 then d
  else
    let index := node.networkNodeId.toNat - 1
    { d with
      connectionStatus :=
        { d.connectionStatus with
          nodeBitmask := d.connectionStatus.nodeBitmask ||| nodeBit index
          nodes := fun i =>
            if i.val = index then node.networkNodeId else d.connectionStatus.nodes i }
      nodeInfo := d.nodeInfo.set index node }

/-- `HandleEAPoLPacket` for an EAPoL-Logoff frame of the address `sender`. -/
def handleEAPoLLogoff (sender : μ) (assignedNodeId : UInt16) (connectedNodes maxNodes : Nat)
    (nodes : List NodeInfo) : Device μ :=
  match d.connectionStatus.status with
  | .connecting =>
      let noted := nodes.foldl noteNode { d with
        hostMacAddress := sender
        totalNodes := connectedNodes
        maxNodes := maxNodes
        nodeInfo := List.replicate maxNodes .zero }
      { noted with
        connectionStatus :=
          { noted.connectionStatus with
            status :=
              match d.connType with
              | .client => .connectedAsClient
              | .spectator => .connectedAsSpectator
              | .unknown => .connecting
            networkNodeId := assignedNodeId
            totalNodes := connectedNodes
            maxNodes := maxNodes
            changedNodes := d.connectionStatus.changedNodes |||
              (nodes.filter (·.networkNodeId ≠ 0)).foldl
                (fun changed node => changed ||| nodeBit (node.networkNodeId.toNat - 1)) 0 } }
  | .connectedAsClient | .connectedAsSpectator =>
      let noted := nodes.foldl noteNode { d with
        connectionStatus :=
          { d.connectionStatus with nodes := fun _ => 0, nodeBitmask := 0 }
        totalNodes := connectedNodes
        nodeInfo := List.replicate d.maxNodes .zero }
      { noted with
        connectionStatus :=
          { noted.connectionStatus with
            totalNodes := connectedNodes
            changedNodes := d.connectionStatus.nodeBitmask ^^^ noted.connectionStatus.nodeBitmask } }
  | .notConnected | .connectedAsHost => d

/-- `StartConnectionSequence`, and what `ConnectToNetworkHLE` does before. -/
def connectToNetwork (server : μ) (totalNodes maxNodes : Nat) (connType : ConnectionType) :
    Device μ × List (WifiPacket μ) :=
  ({ d with
      hostMacAddress := server
      totalNodes := totalNodes
      maxNodes := maxNodes
      connType := connType
      connectionStatus := { d.connectionStatus with status := .connecting } },
    [⟨some server, .authentication true⟩])

/-- `HandleAuthenticationFrame` for a frame of the address `sender`. -/
def handleAuthenticationFrame (sender : μ) (seq1 : Bool) : Device μ × List (WifiPacket μ) :=
  if !seq1 ∨ d.connectionStatus.status ≠ .connectedAsHost ∨ (d.nodeMap sender).isSome ∨
      d.connectionStatus.maxNodes = d.connectionStatus.totalNodes then (d, [])
  else
    ({ d with nodeMap := Function.update d.nodeMap sender (some {}) },
      [⟨some sender, .authentication false⟩, ⟨some sender, .associationResponse 1⟩])

/-- The books of a host, with nobody in the seat of that index. -/
def freeSeat (index : Nat) : Device μ :=
  { d with
    connectionStatus :=
      { d.connectionStatus with
        nodeBitmask := d.connectionStatus.nodeBitmask &&& ~~~nodeBit index
        changedNodes := d.connectionStatus.changedNodes ||| nodeBit index
        totalNodes := d.connectionStatus.totalNodes - 1
        nodes := fun i => if i.val = index then 0 else d.connectionStatus.nodes i }
    totalNodes := d.totalNodes - 1 }

/-- `HandleDeauthenticationFrame` for a frame of the address `sender`. -/
def handleDeauthenticationFrame (sender : μ) : Device μ :=
  if d.connectionStatus.status ≠ .connectedAsHost then d
  else
    match d.nodeMap sender with
    | none => d
    | some node =>
        let d' := { d with nodeMap := Function.update d.nodeMap sender none }
        if !node.connected then d'
        else
          match d.nodeInfo.findIdx? (·.networkNodeId = node.nodeId) with
          | none => d'
          | some i =>
              let d'' := if node.spec then d' else d'.freeSeat (node.nodeId.toNat - 1)
              { d'' with nodeInfo := d.nodeInfo.set i .zero }

/-- `DisconnectNetworkHLE` of a device that is no host. -/
def disconnectNetwork : Device μ × List (WifiPacket μ) :=
  ({ d with
      connectionStatus := { networkNodeId := d.connectionStatus.networkNodeId }
      nodeMap := fun _ => none },
    [⟨some d.hostMacAddress, .deauthentication⟩])

/-- `OnWifiPacketReceived` for a frame of the address `sender`. -/
def handle (sender : μ) : Frame μ → Except Stop (Device μ × List (WifiPacket μ))
  | .authentication seq1 => .ok (d.handleAuthenticationFrame sender seq1)
  | .associationResponse associationId =>
      .ok (d, d.handleAssociationResponseFrame sender associationId)
  | .eapolStart _ connectionType node => d.handleEAPoLStart sender connectionType node
  | .eapolLogoff assignedNodeId connectedNodes maxNodes nodes =>
      .ok (d.handleEAPoLLogoff sender assignedNodeId connectedNodes maxNodes nodes, [])
  | .nodeMap nodes => .ok (d.handleNodeMapPacket nodes, [])
  | .deauthentication => .ok (d.handleDeauthenticationFrame sender, [])

end Device

end Cytrus.Nwm
