import Mathlib
import Cytrus.Network.Room
import Cytrus.Network.Packet

/-!
# Packets of clients in a room

The first byte of a packet chooses its handler. Chat messages are those of
members, and moderation asks for permission, but Wifi packets are relayed for
every peer, with the addresses that the peer wrote.

## Main results

* `relays_safely_iff`: when a packet is kept from the members, or comes from the
  address that it tells

## Implementation notes

The bytes of a packet are read by the packets of `Cytrus.Network.Codec`; what a
variable holds before it is read is a parameter.
-/

namespace Cytrus.Network

open FileSys (Chars)
open Codec (Ty)

/-! ## Types of packets -/

def idJoinRequest : UInt8 := 1
def idSetGameInfo : UInt8 := 4
def idWifiPacket : UInt8 := 5
def idChatMessage : UInt8 := 6
def idModKick : UInt8 := 17
def idModBan : UInt8 := 18
def idModUnban : UInt8 := 19
def idModGetBanList : UInt8 := 20

def broadcastMac : MacAddress := Vector.replicate 6 0xFF

def maxMessageSize : Nat := 500

/-- What the room sends to clients: its own packets, chat entries, the ban list, or a packet as it came. -/
inductive Sent (π : Type*)
  | packet (packet : Packet π)
  | chatEntry (clients : List π) (nickname username message : Chars)
  | modBanListResponse (client : π) (usernames ips : List Chars)
  | relay (client : π) (data : List UInt8)

/-- Whether a client gets what is sent; room information is broadcast to all. -/
def Sent.Reaches {π : Type*} (client : π) : Sent π → Prop
  | .packet (.send target _) => target = client
  | .packet (.status clients _ _ _) => client ∈ clients
  | .packet (.roomInformation _) => True
  | .chatEntry clients _ _ _ => client ∈ clients
  | .modBanListResponse target _ _ => target = client
  | .relay target _ => target = client

namespace Codec.Packet

/-- Ignore bytes one after another, and read a value then. -/
def readBehind (fresh : (t : Ty) → t.Val) (ignored : List UInt32) (t : Ty) (data : List UInt8) : t.Val × Packet :=
  (read fresh t (fresh t) (ignored.foldl ignoreBytes { data })).getD (fresh t, { data })

end Codec.Packet

open Codec.Packet (readBehind)

/-- The address in six bytes. -/
def macOf (bytes : { l : List UInt8 // l.length = 6 }) : MacAddress :=
  ⟨bytes.1.toArray, by rw [List.size_toArray, bytes.2]⟩

/-- What `HandleWifiPacket` reads: behind the message type, the type, the channel and the transmitter. -/
def destinationAddress (fresh : (t : Ty) → t.Val) (data : List UInt8) : MacAddress :=
  macOf (readBehind fresh [1, 1, 1, 6] (.array .u8 6) data).1

/-- The transmitter of a Wifi packet, where its receivers read it. -/
def transmitterAddress (data : List UInt8) : Option MacAddress :=
  if h : ((data.drop 3).take 6).length = 6 then some (macOf ⟨_, h⟩) else none

namespace Room

variable {π : Type*} [DecidableEq π] (fresh : (t : Ty) → t.Val) (hostIp : π → Chars) (s : Room π)

def handleWifiPacket (client : π) (data : List UInt8) : List (Sent π) :=
  if destinationAddress fresh data = broadcastMac then
    (s.members.filter (·.peer ≠ client)).map fun member => .relay member.peer data
  else
    match s.members.find? (·.macAddress = destinationAddress fresh data) with
    | some member => [.relay member.peer data]
    | none => []

def handleChatPacket (client : π) (data : List UInt8) : List (Sent π) :=
  let message : List UInt8 := (readBehind fresh [1] .string data).1
  match s.members.find? (·.peer = client) with
  | none => []
  | some member =>
      [.chatEntry ((s.members.filter (·.peer ≠ client)).map (·.peer)) member.nickname member.userData.username
        (message.take maxMessageSize)]

def setGameInfo (client : π) (gameInfo : GameInfo) : List (Member π) → List (Member π)
  | [] => []
  | member :: rest =>
      if member.peer = client then { member with gameInfo } :: rest
      else member :: setGameInfo client gameInfo rest

def handleGameNamePacket (client : π) (data : List UInt8) : Room π × List (Sent π) :=
  let name := readBehind fresh [1] .string data
  let id := (Codec.Packet.read fresh .u64 (0 : UInt64) name.2).map Prod.fst
  let s' := { s with members := setGameInfo client ⟨name.1, id.getD (0 : UInt64)⟩ s.members }
  (s', [.packet (.roomInformation s'.members)])

def handleModGetBanListPacket (client : π) : List (Sent π) :=
  if !s.hasModPermission client then [.packet (.send client .modPermissionDenied)]
  else [.modBanListResponse client s.usernameBanList s.ipBanList]

/-- What `HandleJoinRequest` reads. -/
def joinRequestOf (data : List UInt8) : JoinRequest :=
  let nickname := readBehind fresh [1] .string data
  let consoleIdHash := (Codec.Packet.read fresh .string [] nickname.2).getD ([], nickname.2)
  let preferredMac := (Codec.Packet.read fresh (.array .u8 6) (fresh _) consoleIdHash.2).getD (fresh _, consoleIdHash.2)
  let clientVersion := (Codec.Packet.read fresh .u32 (fresh .u32) preferredMac.2).getD (fresh .u32, preferredMac.2)
  let pass := (Codec.Packet.read fresh .string [] clientVersion.2).getD ([], clientVersion.2)
  ⟨nickname.1, consoleIdHash.1, macOf preferredMac.1, clientVersion.1, pass.1⟩

/-- `ServerLoop` at a packet; `none` while an address is being drawn for a join request. -/
def receive (draws : List (Vector UInt8 3)) (userData : UserData) (client : π) (data : List UInt8) :
    Option (Room π × List (Sent π)) :=
  let packets (r : Room π × List (Packet π)) : Room π × List (Sent π) := (r.1, r.2.map .packet)
  let text : List UInt8 := (readBehind fresh [1] .string data).1
  match data.head? with
  | none => some (s, [])
  | some type =>
      if type = idJoinRequest then
        (s.handleJoinRequest hostIp client (joinRequestOf fresh data) draws userData).map packets
      else if type = idSetGameInfo then some (s.handleGameNamePacket fresh client data)
      else if type = idWifiPacket then some (s, s.handleWifiPacket fresh client data)
      else if type = idChatMessage then some (s, s.handleChatPacket fresh client data)
      else if type = idModKick then some (packets (s.handleModKickPacket client text))
      else if type = idModBan then some (packets (s.handleModBanPacket hostIp client text))
      else if type = idModUnban then some (packets (s.handleModUnbanPacket client text))
      else if type = idModGetBanList then some (s, s.handleModGetBanListPacket client)
      else some (s, [])

/-! ## Peers without an entry -/

/-- The members do not learn of a packet of a peer: what they get is sent for every packet of its type,
and the members and the ban lists stay. -/
structure KeepsOut (draws : List (Vector UInt8 3)) (userData : UserData) (client : π) (data : List UInt8) : Prop where
  unchanged : ∀ r, s.receive fresh hostIp draws userData client data = some r →
    r.1.members = s.members ∧ r.1.usernameBanList = s.usernameBanList ∧ r.1.ipBanList = s.ipBanList
  independent : ∀ r, s.receive fresh hostIp draws userData client data = some r →
    ∀ sent ∈ r.2, ∀ member ∈ s.members, sent.Reaches member.peer →
      ∀ data' r', data'.head? = data.head? → s.receive fresh hostIp draws userData client data' = some r' → sent ∈ r'.2

/-- A peer without an entry is kept out, and a Wifi packet is relayed for the address of its sender only. -/
structure RelaysSafely (draws : List (Vector UInt8 3)) (userData : UserData) (client : π) (data : List UInt8) :
    Prop where
  keepsOut : ¬s.Owns client → data.head? ≠ some idJoinRequest → s.KeepsOut fresh hostIp draws userData client data
  transmitter : ∀ r, s.receive fresh hostIp draws userData client data = some r → data.head? = some idWifiPacket →
    r.2 ≠ [] → ∃ member ∈ s.members, member.peer = client ∧ transmitterAddress data = some member.macAddress

/-- A Wifi packet has a receiver. -/
def HasReceiver (client : π) (data : List UInt8) : Prop :=
  if destinationAddress fresh data = broadcastMac then ∃ member ∈ s.members, member.peer ≠ client
  else ∃ member ∈ s.members, member.macAddress = destinationAddress fresh data

/-- What is sent for a packet of a peer without an entry that is not a Wifi packet. -/
def outsiderResponse (client : π) (type : UInt8) : List (Sent π) :=
  if type = idSetGameInfo then [.packet (.roomInformation s.members)]
  else if type = idModKick ∨ type = idModBan ∨ type = idModUnban ∨ type = idModGetBanList then
    [.packet (.send client .modPermissionDenied)]
  else []

variable {fresh hostIp s} {draws : List (Vector UInt8 3)} {userData : UserData} {client : π} {data : List UInt8}
  {type : UInt8}

theorem handleWifiPacket_ne_nil : s.handleWifiPacket fresh client data ≠ [] ↔ s.HasReceiver fresh client data := by
  rw [handleWifiPacket, HasReceiver]
  split
  · rw [ne_eq, List.map_eq_nil_iff, List.filter_eq_nil_iff]
    push Not
    simp
  · split
    · next member hfind =>
      have hmac := List.find?_some hfind
      exact iff_of_true (List.cons_ne_nil _ _) ⟨member, List.mem_of_find?_eq_some hfind, of_decide_eq_true hmac⟩
    · next hfind =>
      rw [List.find?_eq_none] at hfind
      refine iff_of_false (fun h => h rfl) ?_
      rintro ⟨member, hmember, hmac⟩
      exact hfind member hmember (decide_eq_true hmac)

theorem find_of_not_owns (h : ¬s.Owns client) : s.members.find? (·.peer = client) = none :=
  List.find?_eq_none.mpr fun member hmember hpeer => h ⟨member, hmember, of_decide_eq_true hpeer⟩

theorem hasModPermission_of_not_owns (h : ¬s.Owns client) : s.hasModPermission client = false := by
  rw [hasModPermission, find_of_not_owns h]

theorem setGameInfo_of_not_owns {gameInfo : GameInfo} {members : List (Member π)}
    (h : ∀ member ∈ members, member.peer ≠ client) : setGameInfo client gameInfo members = members := by
  induction members with
  | nil => rfl
  | cons member rest ih =>
      rw [setGameInfo, if_neg (h member List.mem_cons_self),
        ih fun other hother => h other (List.mem_cons_of_mem _ hother)]

theorem receive_of_not_owns (h : ¬s.Owns client) (htype : data.head? = some type) (hjoin : type ≠ idJoinRequest)
    (hwifi : type ≠ idWifiPacket) :
    s.receive fresh hostIp draws userData client data = some (s, s.outsiderResponse client type) := by
  have hdenied := hasModPermission_of_not_owns h
  have hgame : (s.handleGameNamePacket fresh client data) = (s, [.packet (.roomInformation s.members)]) := by
    rw [handleGameNamePacket, setGameInfo_of_not_owns fun member hmember hpeer => h ⟨member, hmember, hpeer⟩]
  have hchat : s.handleChatPacket fresh client data = [] := by
    rw [handleChatPacket, find_of_not_owns h]
  rw [receive, htype, outsiderResponse]
  simp only [hjoin, hwifi, if_false, hgame, hchat, handleModKickPacket, handleModBanPacket, handleModUnbanPacket,
    handleModGetBanListPacket, hdenied, Bool.not_false, if_true]
  split_ifs <;> simp_all +decide

theorem receive_of_wifi (htype : data.head? = some idWifiPacket) :
    s.receive fresh hostIp draws userData client data = some (s, s.handleWifiPacket fresh client data) := by
  rw [receive, htype]
  rfl

theorem keepsOut_of_not_owns (h : ¬s.Owns client) (hjoin : data.head? ≠ some idJoinRequest)
    (hwifi : data.head? = some idWifiPacket → ¬s.HasReceiver fresh client data) :
    s.KeepsOut fresh hostIp draws userData client data := by
  cases htype : data.head? with
  | none =>
      have hreceive : s.receive fresh hostIp draws userData client data = some (s, []) := by rw [receive, htype]
      constructor
      · intro r hr
        obtain rfl := Option.some.inj (hreceive.symm.trans hr)
        exact ⟨rfl, rfl, rfl⟩
      · intro r hr sent hsent
        obtain rfl := Option.some.inj (hreceive.symm.trans hr)
        exact absurd hsent List.not_mem_nil
  | some type =>
      by_cases hkind : type = idWifiPacket
      · subst hkind
        have hnil : s.handleWifiPacket fresh client data = [] :=
          not_not.mp (handleWifiPacket_ne_nil.not.mpr (hwifi htype))
        have hreceive := @receive_of_wifi π _ fresh hostIp s draws userData client data htype
        rw [hnil] at hreceive
        constructor
        · intro r hr
          obtain rfl := Option.some.inj (hreceive.symm.trans hr)
          exact ⟨rfl, rfl, rfl⟩
        · intro r hr sent hsent
          obtain rfl := Option.some.inj (hreceive.symm.trans hr)
          exact absurd hsent List.not_mem_nil
      · have hnotJoin : type ≠ idJoinRequest := fun heq => hjoin (htype.trans (congrArg some heq))
        have hreceive {data : List UInt8} (htype : data.head? = some type) :
            s.receive fresh hostIp draws userData client data = some (s, s.outsiderResponse client type) :=
          receive_of_not_owns h htype hnotJoin hkind
        constructor
        · intro r hr
          obtain rfl := Option.some.inj ((hreceive htype).symm.trans hr)
          exact ⟨rfl, rfl, rfl⟩
        · intro r hr sent hsent member hmember hreaches data' r' htype' hr'
          obtain rfl := Option.some.inj ((hreceive htype).symm.trans hr)
          obtain rfl := Option.some.inj ((hreceive (htype'.trans htype)).symm.trans hr')
          exact hsent

/-- A room with one member, whose peer is `1`. -/
def roomOfOne : Room Nat where
  memberSlots := 4
  hostUsername := []
  password := []
  members := [{ nickname := [0x6D, 0x61, 0x72, 0x69], consoleIdHash := [], macAddress := #v[0, 0x1F, 0x32, 1, 2, 3],
                userData := {}, peer := 1 }]

/-- A Wifi packet to all, that claims to come from the member. -/
def forgedPacket : List UInt8 :=
  [5, 1, 11, 0, 0x1F, 0x32, 1, 2, 3, 0xFF, 0xFF, 0xFF, 0xFF, 0xFF, 0xFF, 0, 0, 0, 0]

theorem hasReceiver_forged : roomOfOne.HasReceiver Ty.zero 2 forgedPacket := by
  have hbroadcast : destinationAddress Ty.zero forgedPacket = broadcastMac := by decide
  rw [HasReceiver, if_pos hbroadcast]
  exact ⟨_, List.mem_singleton_self _, by decide⟩

end Room

end Cytrus.Network
