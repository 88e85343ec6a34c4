import Mathlib
import Cytrus.FileSys.PathParser

/-!
# The members of a room

A join request is checked against the nickname, the address and the console of
every member, but not against the peer that sends it. A peer can own several
entries for this reason, and its disconnection removes only the first of them.

## Main results

* `step_healthy`: an event keeps the members apart if no owner of an entry joins
* `membership_iff`: the runs in which the members are apart and leave with their
  peer

## Implementation notes

Strings are strings of bytes. The answer of the verification backend comes with
the request, and so do the bytes that are drawn for an address. A request whose
draws are all taken is still being handled.
-/

namespace Cytrus.Network

open FileSys (Chars)

abbrev MacAddress := Vector UInt8 6

def noPreferredMac : MacAddress := #v[0xFF, 0xFF, 0xFF, 0xFF, 0xFF, 0xFF]

def nintendoOUI : MacAddress := #v[0x00, 0x1F, 0x32, 0x00, 0x00, 0x00]

def networkVersion : UInt32 := 4

structure UserData where
  username : Chars := []
  moderator : Bool := false
  deriving DecidableEq

structure GameInfo where
  name : Chars := []
  id : UInt64 := 0

structure Member (π : Type*) where
  nickname : Chars
  consoleIdHash : Chars
  macAddress : MacAddress
  userData : UserData
  peer : π
  gameInfo : GameInfo := {}

/-- What `HandleJoinRequest` reads from its packet. -/
structure JoinRequest where
  nickname : Chars
  consoleIdHash : Chars
  preferredMac : MacAddress
  clientVersion : UInt32
  pass : Chars

/-- The messages to one client. -/
inductive Message
  | roomIsFull
  | wrongPassword
  | nameCollision
  | macCollision
  | consoleIdCollision
  | versionMismatch
  | joinSuccess (mac : MacAddress)
  | joinSuccessAsMod (mac : MacAddress)
  | userKicked
  | userBanned
  | modPermissionDenied
  | modNoSuchUser

/-- `StatusMessageTypes`. -/
inductive StatusMessageType
  | memberJoin
  | memberLeave
  | memberKicked
  | memberBanned
  | addressUnbanned

/-- What the room sends. -/
inductive Packet (π : Type*)
  | send (client : π) (message : Message)
  | status (clients : List π) (type : StatusMessageType) (nickname username : Chars)
  | roomInformation (members : List (Member π))

/-- The state of `Room::RoomImpl`. -/
structure Room (π : Type*) where
  memberSlots : Nat
  hostUsername : Chars
  password : Chars
  members : List (Member π) := []
  usernameBanList : List Chars := []
  ipBanList : List Chars := []

/-- An event of `ServerLoop` that changes the members or the ban lists. -/
inductive Action
  | joinRequest (request : JoinRequest) (draws : List (Vector UInt8 3)) (userData : UserData)
  | modKick (nickname : Chars)
  | modBan (nickname : Chars)
  | modUnban (address : Chars)
  | disconnect

/-- An event, and the peer that it comes from. -/
structure Event (π : Type*) where
  client : π
  action : Action

/-- A character of a nickname: `[ a-zA-Z0-9._-]`. -/
def isNicknameChar (c : UInt8) : Bool :=
  c = 0x20 || (0x61 ≤ c && c ≤ 0x7A) || (0x41 ≤ c && c ≤ 0x5A) || (0x30 ≤ c && c ≤ 0x39) ||
    c = 0x2E || c = 0x5F || c = 0x2D

namespace Room

variable {π : Type*} [DecidableEq π] (s : Room π) (hostIp : π → Chars)

def IsValidNickname (nickname : Chars) : Prop :=
  (nickname.all isNicknameChar = true ∧ 4 ≤ nickname.length ∧ nickname.length ≤ 20) ∧
    ∀ member ∈ s.members, member.nickname ≠ nickname

def IsValidMacAddress (address : MacAddress) : Prop :=
  ∀ member ∈ s.members, member.macAddress ≠ address

def IsValidConsoleId (consoleIdHash : Chars) : Prop :=
  ∀ member ∈ s.members, member.consoleIdHash ≠ consoleIdHash

instance (nickname : Chars) : Decidable (s.IsValidNickname nickname) :=
  inferInstanceAs (Decidable (_ ∧ _))

instance (address : MacAddress) : Decidable (s.IsValidMacAddress address) :=
  inferInstanceAs (Decidable (∀ _ ∈ _, _))

instance (consoleIdHash : Chars) : Decidable (s.IsValidConsoleId consoleIdHash) :=
  inferInstanceAs (Decidable (∀ _ ∈ _, _))

def hasModPermission (client : π) : Bool :=
  match s.members.find? (·.peer = client) with
  | none => false
  | some member =>
      member.userData.moderator ||
        (!s.hostUsername.isEmpty && member.userData.username = s.hostUsername)

/-- `GenerateMacAddress`: the first address among the drawn ones that is free. -/
def generateMacAddress (draws : List (Vector UInt8 3)) : Option MacAddress :=
  (draws.map fun d => #v[nintendoOUI[0], nintendoOUI[1], nintendoOUI[2], d[0], d[1], d[2]]).find?
    fun address => s.IsValidMacAddress address

/-- The ban lists hold the user, or the address of its peer. -/
def IsBanned (client : π) (username : Chars) : Prop :=
  (username ≠ [] ∧ username ∈ s.usernameBanList) ∨ hostIp client ∈ s.ipBanList

instance (client : π) (username : Chars) : Decidable (s.IsBanned hostIp client username) :=
  inferInstanceAs (Decidable (_ ∨ _))

def sendStatusMessage (type : StatusMessageType) (nickname username : Chars) : Packet π :=
  .status (s.members.map (·.peer)) type nickname username

/-- The member that `HandleJoinRequest` adds. -/
def newMember (client : π) (request : JoinRequest) (mac : MacAddress) (userData : UserData) :
    Member π where
  nickname := request.nickname
  consoleIdHash := request.consoleIdHash
  macAddress := mac
  userData :=
    { userData with moderator := userData.moderator || request.nickname = s.hostUsername }
  peer := client

/-- `HandleJoinRequest` from `IsValidConsoleId` on. -/
def enter (client : π) (request : JoinRequest) (mac : MacAddress) (userData : UserData) :
    Room π × List (Packet π) :=
  if ¬ s.IsValidConsoleId request.consoleIdHash then (s, [.send client .consoleIdCollision])
  else if request.clientVersion ≠ networkVersion then (s, [.send client .versionMismatch])
  else if s.IsBanned hostIp client userData.username then (s, [.send client .userBanned])
  else
    let joined := { s with members := s.members ++ [s.newMember client request mac userData] }
    (joined,
      [s.sendStatusMessage .memberJoin request.nickname userData.username,
        .roomInformation joined.members,
        .send client (if joined.hasModPermission client then .joinSuccessAsMod mac
          else .joinSuccess mac)])

def handleJoinRequest (client : π) (request : JoinRequest) (draws : List (Vector UInt8 3))
    (userData : UserData) : Option (Room π × List (Packet π)) :=
  if s.memberSlots ≤ s.members.length then some (s, [.send client .roomIsFull])
  else if request.pass ≠ s.password then some (s, [.send client .wrongPassword])
  else if ¬ s.IsValidNickname request.nickname then some (s, [.send client .nameCollision])
  else if request.preferredMac ≠ noPreferredMac then
    if s.IsValidMacAddress request.preferredMac then
      some (s.enter hostIp client request request.preferredMac userData)
    else some (s, [.send client .macCollision])
  else (s.generateMacAddress draws).map fun mac => s.enter hostIp client request mac userData

def handleModKickPacket (client : π) (nickname : Chars) : Room π × List (Packet π) :=
  if !s.hasModPermission client then (s, [.send client .modPermissionDenied])
  else
    match s.members.find? (·.nickname = nickname) with
    | none => (s, [.send client .modNoSuchUser])
    | some target =>
        let s' := { s with members := s.members.eraseP (·.nickname = nickname) }
        (s', [.send target.peer .userKicked,
          s'.sendStatusMessage .memberKicked nickname target.userData.username,
          .roomInformation s'.members])

/-- The entry of a ban list, unless it is there. -/
def addBan (list : List Chars) (entry : Chars) : List Chars :=
  if list.contains entry then list else list ++ [entry]

def handleModBanPacket (client : π) (nickname : Chars) : Room π × List (Packet π) :=
  if !s.hasModPermission client then (s, [.send client .modPermissionDenied])
  else
    match s.members.find? (·.nickname = nickname) with
    | none => (s, [.send client .modNoSuchUser])
    | some target =>
        let username := target.userData.username
        let s' := { s with
          members := s.members.eraseP (·.nickname = nickname)
          usernameBanList :=
            if username.isEmpty then s.usernameBanList else addBan s.usernameBanList username
          ipBanList := addBan s.ipBanList (hostIp target.peer) }
        (s', [.send target.peer .userBanned,
          s'.sendStatusMessage .memberBanned nickname username, .roomInformation s'.members])

def handleModUnbanPacket (client : π) (address : Chars) : Room π × List (Packet π) :=
  if !s.hasModPermission client then (s, [.send client .modPermissionDenied])
  else if s.usernameBanList.contains address || s.ipBanList.contains address then
    ({ s with
        usernameBanList := s.usernameBanList.erase address
        ipBanList := s.ipBanList.erase address },
      [s.sendStatusMessage .addressUnbanned address []])
  else (s, [.send client .modNoSuchUser])

def handleClientDisconnection (client : π) : Room π × List (Packet π) :=
  match s.members.find? (·.peer = client) with
  | none => (s, [.roomInformation s.members])
  | some member =>
      let s' := { s with members := s.members.eraseP (·.peer = client) }
      (s',
        (if member.nickname.isEmpty then []
          else [s'.sendStatusMessage .memberLeave member.nickname member.userData.username]) ++
        [.roomInformation s'.members])

/-- `ServerLoop` at an event; `none` while an address is being drawn. -/
def step (e : Event π) : Option (Room π × List (Packet π)) :=
  match e.action with
  | .joinRequest request draws userData => s.handleJoinRequest hostIp e.client request draws userData
  | .modKick nickname => some (s.handleModKickPacket e.client nickname)
  | .modBan nickname => some (s.handleModBanPacket hostIp e.client nickname)
  | .modUnban address => some (s.handleModUnbanPacket e.client address)
  | .disconnect => some (s.handleClientDisconnection e.client)

/-! ## What an event does -/

/-- A join request passes the checks. -/
structure Accepts (client : π) (request : JoinRequest) (userData : UserData) : Prop where
  slots : s.members.length < s.memberSlots
  pass : request.pass = s.password
  nickname : s.IsValidNickname request.nickname
  preferredMac : request.preferredMac ≠ noPreferredMac → s.IsValidMacAddress request.preferredMac
  consoleId : s.IsValidConsoleId request.consoleIdHash
  clientVersion : request.clientVersion = networkVersion
  notBanned : ¬ s.IsBanned hostIp client userData.username

/-- The members, with an entry for the peer that joins. -/
def joined (client : π) (request : JoinRequest) (mac : MacAddress) (userData : UserData) : Room π :=
  { s with members := s.members ++ [s.newMember client request mac userData] }

/-- What an event does to the members. -/
inductive Changes (e : Event π) (s s' : Room π) : Prop
  | joins {request : JoinRequest} {draws : List (Vector UInt8 3)} {userData : UserData}
      {mac : MacAddress} (haction : e.action = .joinRequest request draws userData)
      (haccepts : s.Accepts hostIp e.client request userData) (hmac : s.IsValidMacAddress mac)
      (h : s' = s.joined e.client request mac userData)
  | refuses {request : JoinRequest} {draws : List (Vector UInt8 3)} {userData : UserData}
      (haction : e.action = .joinRequest request draws userData)
      (hrefuses : ¬ s.Accepts hostIp e.client request userData) (h : s' = s)
  | removes (haction : ∀ request draws userData, e.action ≠ .joinRequest request draws userData)
      (hslots : s'.memberSlots = s.memberSlots) (h : s'.members.Sublist s.members)

variable {s hostIp} {s' : Room π} {client : π} {packets : List (Packet π)} {e : Event π}

section Join

variable {request : JoinRequest} {draws : List (Vector UInt8 3)} {userData : UserData} {mac : MacAddress}

omit [DecidableEq π] in
theorem isValidMacAddress_generate (h : s.generateMacAddress draws = some mac) :
    s.IsValidMacAddress mac := by
  have hmac := List.find?_some h
  exact of_decide_eq_true hmac

theorem enter_cases :
    (s.enter hostIp client request mac userData).1 = s ∧
        ¬ (s.IsValidConsoleId request.consoleIdHash ∧ request.clientVersion = networkVersion ∧
          ¬ s.IsBanned hostIp client userData.username) ∨
      (s.enter hostIp client request mac userData).1 = s.joined client request mac userData ∧
        s.IsValidConsoleId request.consoleIdHash ∧ request.clientVersion = networkVersion ∧
          ¬ s.IsBanned hostIp client userData.username := by
  rw [enter]
  split
  · next hid => exact .inl ⟨rfl, fun h => hid h.1⟩
  · next hid =>
    split
    · next hversion => exact .inl ⟨rfl, fun h => hversion h.2.1⟩
    · next hversion =>
      split
      · next hbanned => exact .inl ⟨rfl, fun h => h.2.2 hbanned⟩
      · next hbanned => exact .inr ⟨rfl, not_not.mp hid, not_not.mp hversion, hbanned⟩

theorem changes_enter (haction : e.action = .joinRequest request draws userData)
    (hslots : s.members.length < s.memberSlots) (hpass : request.pass = s.password)
    (hnickname : s.IsValidNickname request.nickname)
    (hpreferred : request.preferredMac ≠ noPreferredMac → s.IsValidMacAddress request.preferredMac)
    (hmac : s.IsValidMacAddress mac) :
    Changes hostIp e s (s.enter hostIp e.client request mac userData).1 := by
  rcases @enter_cases π _ s hostIp e.client request userData mac with ⟨hs, hchecks⟩ | ⟨hs, hchecks⟩
  · exact .refuses haction (fun h => hchecks ⟨h.consoleId, h.clientVersion, h.notBanned⟩) hs
  · exact .joins haction
      ⟨hslots, hpass, hnickname, hpreferred, hchecks.1, hchecks.2.1, hchecks.2.2⟩ hmac hs

theorem changes_join (haction : e.action = .joinRequest request draws userData)
    (h : s.handleJoinRequest hostIp e.client request draws userData = some (s', packets)) :
    Changes hostIp e s s' := by
  have hrefused {message : Message} (hrefuses : ¬ s.Accepts hostIp e.client request userData)
      (heq : some (s, [Packet.send e.client message]) = some (s', packets)) :
      Changes hostIp e s s' := by
    cases heq
    exact .refuses haction hrefuses rfl
  rw [handleJoinRequest] at h
  split at h
  · next hfull => exact hrefused (fun haccepts => by have := haccepts.slots; omega) h
  · next hslots =>
    split at h
    · next hpass => exact hrefused (fun haccepts => hpass haccepts.pass) h
    · next hpass =>
      split at h
      · next hnickname => exact hrefused (fun haccepts => hnickname haccepts.nickname) h
      · next hnickname =>
        have henter {mac : MacAddress} := @changes_enter π _ s hostIp e request draws userData mac
        split at h
        · next hpreferred =>
          split at h
          · next hmac =>
            have hs' : (s.enter hostIp e.client request _ userData).1 = s' :=
              congrArg Prod.fst (Option.some.inj h)
            exact hs' ▸ henter haction (not_le.mp hslots) (not_not.mp hpass)
              (not_not.mp hnickname) (fun _ => hmac) hmac
          · next hmac => exact hrefused (fun haccepts => hmac (haccepts.preferredMac hpreferred)) h
        · next hpreferred =>
          obtain ⟨mac, hgenerate, hs'⟩ := Option.map_eq_some_iff.mp h
          have hs' : (s.enter hostIp e.client request mac userData).1 = s' := congrArg Prod.fst hs'
          exact hs' ▸ henter haction (not_le.mp hslots) (not_not.mp hpass) (not_not.mp hnickname)
            (fun hne => absurd hne hpreferred)
            (isValidMacAddress_generate hgenerate)

end Join

theorem kick_members {nickname : Chars} :
    (s.handleModKickPacket client nickname).1.memberSlots = s.memberSlots ∧
      (s.handleModKickPacket client nickname).1.members.Sublist s.members := by
  rw [handleModKickPacket]
  split
  · exact ⟨rfl, .refl _⟩
  · split
    · exact ⟨rfl, .refl _⟩
    · exact ⟨rfl, List.eraseP_sublist⟩

theorem ban_members {nickname : Chars} :
    (s.handleModBanPacket hostIp client nickname).1.memberSlots = s.memberSlots ∧
      (s.handleModBanPacket hostIp client nickname).1.members.Sublist s.members := by
  rw [handleModBanPacket]
  split
  · exact ⟨rfl, .refl _⟩
  · split
    · exact ⟨rfl, .refl _⟩
    · exact ⟨rfl, List.eraseP_sublist⟩

theorem unban_members {address : Chars} :
    (s.handleModUnbanPacket client address).1.memberSlots = s.memberSlots ∧
      (s.handleModUnbanPacket client address).1.members = s.members := by
  rw [handleModUnbanPacket]
  split
  · exact ⟨rfl, rfl⟩
  · split <;> exact ⟨rfl, rfl⟩

theorem disconnection_members :
    (s.handleClientDisconnection client).1.memberSlots = s.memberSlots ∧
      (s.handleClientDisconnection client).1.members = s.members.eraseP (·.peer = client) := by
  rw [handleClientDisconnection]
  split
  · next hnone =>
    have hnobody := List.find?_eq_none.mp hnone
    exact ⟨rfl, (List.eraseP_of_forall_not hnobody).symm⟩
  · exact ⟨rfl, rfl⟩

theorem step_cases (h : s.step hostIp e = some (s', packets)) : Changes hostIp e s s' := by
  obtain ⟨client, action⟩ := e
  have hafter {result : Room π × List (Packet π)} (heq : some result = some (s', packets)) :
      s' = result.1 := (congrArg Prod.fst (Option.some.inj heq)).symm
  cases action with
  | joinRequest request draws userData => exact changes_join rfl h
  | modKick nickname =>
      rw [hafter h]
      exact .removes (fun _ _ _ heq => nomatch heq) kick_members.1 kick_members.2
  | modBan nickname =>
      rw [hafter h]
      exact .removes (fun _ _ _ heq => nomatch heq) ban_members.1 ban_members.2
  | modUnban address =>
      rw [hafter h]
      have hmembers := @unban_members π _ s client address
      exact .removes (fun _ _ _ heq => nomatch heq) hmembers.1 (hmembers.2.symm ▸ .refl _)
  | disconnect =>
      have hmembers := @disconnection_members π _ s client
      rw [hafter h]
      exact .removes (fun _ _ _ heq => nomatch heq) hmembers.1
        (hmembers.2.symm ▸ List.eraseP_sublist)

/-! ## The members apart -/

variable (s) in
/-- The members fit into the room and share nothing. -/
structure Healthy : Prop where
  slots : s.members.length ≤ s.memberSlots
  nicknames : (s.members.map (·.nickname)).Nodup
  macAddresses : (s.members.map (·.macAddress)).Nodup
  consoleIds : (s.members.map (·.consoleIdHash)).Nodup
  peers : (s.members.map (·.peer)).Nodup

variable (s) in
/-- The peer owns an entry. -/
def Owns (client : π) : Prop := ∃ member ∈ s.members, member.peer = client

variable (s hostIp e) in
/-- The owner of an entry sends another join request, which passes the checks. -/
def Rejoins : Prop :=
  ∃ request draws userData, e.action = .joinRequest request draws userData ∧
    s.Accepts hostIp e.client request userData ∧ s.Owns e.client

omit [DecidableEq π] in
theorem nodup_join {β : Type*} {f : Member π → β} {member : Member π} :
    ((s.members ++ [member]).map f).Nodup ↔
      (s.members.map f).Nodup ∧ ∀ m ∈ s.members, f m ≠ f member := by
  rw [List.map_append, List.map_singleton, List.nodup_append]
  simp

omit [DecidableEq π] in
theorem Healthy.sublist (h : s.Healthy) (hslots : s'.memberSlots = s.memberSlots)
    (hmembers : s'.members.Sublist s.members) : s'.Healthy where
  slots := hslots ▸ hmembers.length_le.trans h.slots
  nicknames := h.nicknames.sublist (hmembers.map _)
  macAddresses := h.macAddresses.sublist (hmembers.map _)
  consoleIds := h.consoleIds.sublist (hmembers.map _)
  peers := h.peers.sublist (hmembers.map _)

omit [DecidableEq π] in
theorem Healthy.join {request : JoinRequest} {userData : UserData} {mac : MacAddress} (h : s.Healthy)
    (haccepts : s.Accepts hostIp client request userData) (hmac : s.IsValidMacAddress mac) :
    (s.joined client request mac userData).Healthy ↔ ¬ s.Owns client where
  mp hjoined := fun ⟨member, hmember, hpeer⟩ =>
    (nodup_join.mp hjoined.peers).2 member hmember hpeer
  mpr howns := {
    slots := by
      have hslots := haccepts.slots
      simp only [joined, List.length_append, List.length_singleton]
      omega
    nicknames := nodup_join.mpr ⟨h.nicknames, haccepts.nickname.2⟩
    macAddresses := nodup_join.mpr ⟨h.macAddresses, hmac⟩
    consoleIds := nodup_join.mpr ⟨h.consoleIds, haccepts.consoleId⟩
    peers := nodup_join.mpr ⟨h.peers, fun member hmember hpeer => howns ⟨member, hmember, hpeer⟩⟩ }

/-- An event keeps the members apart unless the owner of an entry joins. -/
theorem step_healthy (h : s.Healthy) (hstep : s.step hostIp e = some (s', packets)) :
    s'.Healthy ↔ ¬ s.Rejoins hostIp e := by
  cases step_cases hstep with
  | joins haction haccepts hmac hs' =>
      rw [hs', h.join haccepts hmac]
      refine not_congr ⟨fun howns => ⟨_, _, _, haction, haccepts, howns⟩, ?_⟩
      rintro ⟨_, _, _, _, _, howns⟩
      exact howns
  | refuses haction hrefuses hs' =>
      refine iff_of_true (hs' ▸ h) ?_
      rintro ⟨request, draws, userData, haction', haccepts, _⟩
      cases haction.symm.trans haction'
      exact hrefuses haccepts
  | removes haction hslots hmembers =>
      refine iff_of_true (h.sublist hslots hmembers) ?_
      rintro ⟨request, draws, userData, haction', _⟩
      exact haction _ _ _ haction'

/-- The first entry of a peer is its only one. -/
theorem not_owns_disconnection (h : s.Healthy) :
    ¬ (s.handleClientDisconnection client).1.Owns client := by
  rintro ⟨member, hmember, hpeer⟩
  rw [disconnection_members.2] at hmember
  have hpeers := h.peers
  generalize s.members = members at hmember hpeers
  induction members with
  | nil => exact nomatch hmember
  | cons head members ih =>
      obtain ⟨hhead, hpeers⟩ := List.nodup_cons.mp hpeers
      by_cases hfirst : head.peer = client
      · rw [List.eraseP_cons_of_pos (by simpa using hfirst)] at hmember
        exact hhead (List.mem_map.mpr ⟨member, hmember, hpeer.trans hfirst.symm⟩)
      · rw [List.eraseP_cons_of_neg (by simpa using hfirst)] at hmember
        rcases List.mem_cons.mp hmember with rfl | hmember
        · exact hfirst hpeer
        · exact ih hmember hpeers

/-! ## Runs -/

/-- An event, and the rooms before and after it. -/
structure Transition (π : Type*) where
  before : Room π
  event : Event π
  after : Room π

/-- A run of `ServerLoop`. -/
inductive Run (hostIp : π → Chars) (start : Room π) : List (Transition π) → Room π → Prop
  | nil : Run hostIp start [] start
  | step {ts : List (Transition π)} {s s' : Room π} {e : Event π} {packets : List (Packet π)}
      (h : Run hostIp start ts s) (hstep : s.step hostIp e = some (s', packets)) :
      Run hostIp start (ts ++ [⟨s, e, s'⟩]) s'

/-- The members are apart after the event, and a peer that disconnects has left. -/
def Transition.Keeps (t : Transition π) : Prop :=
  t.after.Healthy ∧ (t.event.action = .disconnect → ¬ t.after.Owns t.event.client)

theorem keeps_iff {t : Transition π} (h : t.before.Healthy)
    (hstep : t.before.step hostIp t.event = some (t.after, packets)) :
    t.Keeps ↔ ¬ t.before.Rejoins hostIp t.event := by
  refine (and_iff_left fun haction => ?_).trans (step_healthy h hstep)
  have hafter : t.before.step hostIp t.event =
      some (t.before.handleClientDisconnection t.event.client) := by rw [step, haction]
  have hleft := @not_owns_disconnection π _ t.before t.event.client h
  rwa [Option.some.inj (hafter.symm.trans hstep)] at hleft

variable {start : Room π} {ts : List (Transition π)}

theorem Run.healthy (hempty : start.members = []) (h : Run hostIp start ts s)
    (hkeeps : ∀ t ∈ ts, t.Keeps) : s.Healthy := by
  cases h with
  | nil => constructor <;> simp [hempty]
  | step _ _ => exact (hkeeps _ (List.mem_append_right _ (List.mem_singleton_self _))).1

/-- In a run of an empty room the members are apart, and leave with their peer, if and only if the
owner of an entry never joins again. -/
theorem membership_iff (hempty : start.members = []) (h : Run hostIp start ts s) :
    (∀ t ∈ ts, t.Keeps) ↔ ∀ t ∈ ts, ¬ t.before.Rejoins hostIp t.event := by
  induction h with
  | nil => simp
  | @step ts s s' e packets hrun hstep ih =>
      calc (∀ t ∈ ts ++ [⟨s, e, s'⟩], t.Keeps)
          ↔ (∀ t ∈ ts, t.Keeps) ∧ Transition.Keeps ⟨s, e, s'⟩ := by
            rw [List.forall_mem_append, List.forall_mem_singleton]
        _ ↔ (∀ t ∈ ts, t.Keeps) ∧ ¬ s.Rejoins hostIp e :=
            and_congr_right fun hkeeps => keeps_iff (hrun.healthy hempty hkeeps) hstep
        _ ↔ (∀ t ∈ ts, ¬ t.before.Rejoins hostIp t.event) ∧ ¬ s.Rejoins hostIp e :=
            and_congr_left' ih
        _ ↔ ∀ t ∈ ts ++ [⟨s, e, s'⟩], ¬ t.before.Rejoins hostIp t.event := by
            rw [List.forall_mem_append, List.forall_mem_singleton]

section Example

/-- A room for four, without a password. -/
def fourSlots : Room Nat := { memberSlots := 4, hostUsername := [], password := [] }

/-- Requests that differ in the nickname and the console; their addresses are drawn. -/
def requestOf (c : UInt8) : JoinRequest :=
  ⟨List.replicate 4 c, [c], noPreferredMac, networkVersion, []⟩

/-- The first peer joins with the nickname `cccc`. -/
def joinAs (c : UInt8) : Event Nat := ⟨0, .joinRequest (requestOf c) [#v[0, 0, c]] {}⟩

/-- The first peer joins as `aaaa`. -/
def joinedOnce : Room Nat := fourSlots.joined 0 (requestOf 97) #v[0x00, 0x1F, 0x32, 0, 0, 97] {}

/-- The first peer joins again as `bbbb`. -/
def joinedTwice : Room Nat := joinedOnce.joined 0 (requestOf 98) #v[0x00, 0x1F, 0x32, 0, 0, 98] {}

/-- The first peer leaves. -/
def leave : Event Nat := ⟨0, .disconnect⟩

theorem membership_joinAndLeave :
    (⟨fourSlots, joinAs 97, joinedOnce⟩ : Transition Nat).Keeps ∧
      (⟨joinedOnce, leave, fourSlots⟩ : Transition Nat).Keeps := by
  have hrun : Run (fun _ => []) fourSlots
      [⟨fourSlots, joinAs 97, joinedOnce⟩, ⟨joinedOnce, leave, fourSlots⟩] fourSlots :=
    .step (.step (@Run.nil Nat _ (fun _ => []) fourSlots) rfl) rfl
  have hkeeps := (membership_iff rfl hrun).mpr (by simp [Rejoins, Owns, fourSlots, leave])
  exact ⟨hkeeps _ (List.mem_cons_self ..), hkeeps _ (List.mem_cons_of_mem _ (List.mem_cons_self ..))⟩

theorem membership_joinsTwice :
    ∃ ts s, Run (fun _ => []) fourSlots ts s ∧
      ∃ t ∈ ts, t.event.action = .disconnect ∧ t.after.Owns t.event.client :=
  ⟨[⟨fourSlots, joinAs 97, joinedOnce⟩, ⟨joinedOnce, joinAs 98, joinedTwice⟩,
      ⟨joinedTwice, leave, (joinedTwice.handleClientDisconnection 0).1⟩], _,
    .step (.step (.step .nil rfl) rfl) rfl, ⟨joinedTwice, leave, _⟩,
    .tail _ (.tail _ (.head _)), rfl, _, List.mem_singleton_self _, rfl⟩

end Example

end Room

end Cytrus.Network
