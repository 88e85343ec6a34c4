import Cytrus.Nwm.Uds

/-!
# The books of a host

The host of a network keeps the taken node ids in a bitmask, in two lists and in
its map of nodes, and their number in two counters. They say the same in every
run.

## Main results

* `Books.handle`: a frame leaves the books of a host in order
* `hostBooks`: what the books say in a state that a run leads to

## Implementation notes

A node id is the index of its seat, plus one. A run ends at a failing assertion.
-/

namespace Cytrus.Nwm

variable {μ : Type*} [DecidableEq μ]

section NodeIds

variable {i j : Nat}

theorem toNat_nodeId (hi : i < 16) : (UInt16.ofNat (i + 1)).toNat = i + 1 := by
  rw [UInt16.toNat_ofNat']
  omega

theorem nodeId_inj (hi : i < 16) (hj : j < 16)
    (h : UInt16.ofNat (i + 1) = UInt16.ofNat (j + 1)) : i = j := by
  have hnat := congrArg UInt16.toNat h
  rw [toNat_nodeId hi, toNat_nodeId hj] at hnat
  omega

theorem nodeId_ne_zero (hi : i < 16) : UInt16.ofNat (i + 1) ≠ 0 := by
  intro h
  have hnat := congrArg UInt16.toNat h
  rw [toNat_nodeId hi] at hnat
  exact absurd hnat (by simp)

@[simp] theorem getLsbD_nodeBit : (nodeBit i).getLsbD j = (decide (j < 16) && decide (i = j)) := by
  rw [nodeBit, BitVec.getLsbD_shiftLeft, BitVec.getLsbD_one]
  grind

theorem and_nodeBit_eq_zero {mask : BitVec 16} (hi : i < 16) :
    mask &&& nodeBit i = 0 ↔ mask.getLsbD i = false := by
  constructor
  · intro h
    have hbit := congrArg (BitVec.getLsbD · i) h
    simp only [BitVec.getLsbD_and, getLsbD_nodeBit, hi, decide_true, Bool.and_true] at hbit
    exact hbit.trans BitVec.getLsbD_zero
  · intro h
    refine BitVec.eq_of_getLsbD_eq fun j hj => ?_
    rw [BitVec.getLsbD_and, getLsbD_nodeBit]
    by_cases hij : i = j
    · simp [← hij, h]
    · simp [hij]

end NodeIds

/-! ## Seats -/

section Seats

variable {nodeMap : μ → Option Node} {taken : Finset Nat} {sender mac : μ} {node : Node}
  {entry : Option Node} {index i j : Nat}

/-- The client is in the seat. -/
def Seated (nodeMap : μ → Option Node) (mac : μ) (index : Nat) : Prop :=
  ∃ node, nodeMap mac = some node ∧ node.isClient = true ∧ node.nodeId = UInt16.ofNat (index + 1)

/-- The clients of the map are in the taken seats, one in each but the one of the host. -/
structure Seating (nodeMap : μ → Option Node) (taken : Finset Nat) : Prop where
  lt_sixteen : ∀ i ∈ taken, i < 16
  seated : ∀ mac node, nodeMap mac = some node → node.isClient = true →
    ∃ i ∈ taken, i ≠ 0 ∧ Seated nodeMap mac i
  unique : ∀ i ∈ taken, ∀ mac mac', Seated nodeMap mac i → Seated nodeMap mac' i → mac = mac'
  occupied : ∀ i ∈ taken, i ≠ 0 → ∃ mac, Seated nodeMap mac i
  spectators : ∀ mac node, nodeMap mac = some node → node.spec = true → node.nodeId = nodeIDSpec

/-- The address has no client in the map. -/
def NoClient (nodeMap : μ → Option Node) (mac : μ) : Prop :=
  ∀ node, nodeMap mac = some node → node.isClient = false

omit [DecidableEq μ] in
theorem Seated.index_eq (hi : i < 16) (hj : j < 16) (h : Seated nodeMap mac i)
    (h' : Seated nodeMap mac j) : i = j := by
  obtain ⟨node, hnode, -, hid⟩ := h
  obtain ⟨node', hnode', -, hid'⟩ := h'
  cases Option.some.inj (hnode.symm.trans hnode')
  exact nodeId_inj hi hj (hid.symm.trans hid')

omit [DecidableEq μ] in
theorem NoClient.not_seated (h : NoClient nodeMap mac) : ¬ Seated nodeMap mac i := by
  rintro ⟨node, hnode, hclient, -⟩
  exact Bool.false_ne_true ((h node hnode).symm.trans hclient)

theorem seated_update_of_ne (hmac : mac ≠ sender) :
    Seated (Function.update nodeMap sender entry) mac i ↔ Seated nodeMap mac i := by
  rw [Seated, Seated, Function.update_of_ne hmac]

theorem seated_update_self :
    Seated (Function.update nodeMap sender (some node)) sender i ↔
      node.isClient = true ∧ node.nodeId = UInt16.ofNat (i + 1) := by
  rw [Seated, Function.update_self]
  constructor
  · rintro ⟨_, hnode, h⟩
    exact Option.some.inj hnode ▸ h
  · exact fun h => ⟨node, rfl, h⟩

theorem noClient_update (h : ∀ node, entry = some node → node.isClient = false) :
    NoClient (Function.update nodeMap sender entry) sender := by
  intro node hnode
  rw [Function.update_self] at hnode
  exact h node hnode

theorem spectators_update (h : Seating nodeMap taken)
    (hnew : ∀ node, entry = some node → node.spec = true → node.nodeId = nodeIDSpec) (mac : μ)
    (node : Node) (hnode : Function.update nodeMap sender entry mac = some node)
    (hspec : node.spec = true) : node.nodeId = nodeIDSpec := by
  by_cases hmac : mac = sender
  · rw [hmac, Function.update_self] at hnode
    exact hnew node hnode hspec
  · rw [Function.update_of_ne hmac] at hnode
    exact h.spectators mac node hnode hspec

theorem Seating.update (h : Seating nodeMap taken) (hold : NoClient nodeMap sender)
    (hnew : ∀ node, entry = some node → node.isClient = false)
    (hspec : ∀ node, entry = some node → node.spec = true → node.nodeId = nodeIDSpec) :
    Seating (Function.update nodeMap sender entry) taken := by
  have hseated {mac : μ} {i : Nat} :
      Seated (Function.update nodeMap sender entry) mac i ↔ Seated nodeMap mac i := by
    by_cases hmac : mac = sender
    · subst hmac
      exact iff_of_false (noClient_update hnew).not_seated hold.not_seated
    · exact seated_update_of_ne hmac
  refine ⟨h.lt_sixteen, fun mac node hnode hclient => ?_, fun i hi mac mac' hmac hmac' =>
    h.unique i hi mac mac' (hseated.mp hmac) (hseated.mp hmac'), fun i hi hne => ?_,
    spectators_update h hspec⟩
  · by_cases hmac : mac = sender
    · subst hmac
      exact absurd ((noClient_update hnew node hnode).symm.trans hclient) Bool.false_ne_true
    · rw [Function.update_of_ne hmac] at hnode
      obtain ⟨i, hi, hne, hseat⟩ := h.seated mac node hnode hclient
      exact ⟨i, hi, hne, hseated.mpr hseat⟩
  · obtain ⟨mac, hmac⟩ := h.occupied i hi hne
    exact ⟨mac, hseated.mpr hmac⟩

theorem Seating.sit (h : Seating nodeMap taken) (hold : NoClient nodeMap sender)
    (hfree : index ∉ taken) (hne : index ≠ 0) (hlt : index < 16) :
    Seating (Function.update nodeMap sender (some ⟨true, false, UInt16.ofNat (index + 1)⟩))
      (insert index taken) := by
  have hself : Seated (Function.update nodeMap sender
      (some ⟨true, false, UInt16.ofNat (index + 1)⟩)) sender index :=
    seated_update_self.mpr ⟨rfl, rfl⟩
  have hlt' : ∀ i ∈ insert index taken, i < 16 := by
    intro i hi
    rcases Finset.mem_insert.mp hi with rfl | hi
    exacts [hlt, h.lt_sixteen i hi]
  have hother {mac : μ} {i : Nat} (hi : i ∈ insert index taken) (hmac : mac ≠ sender)
      (hseat : Seated nodeMap mac i) : i ∈ taken := by
    obtain ⟨node, hnode, hclient, hid⟩ := hseat
    obtain ⟨j, hj, -, hseat⟩ := h.seated mac node hnode hclient
    have hij := Seated.index_eq (hlt' i hi) (h.lt_sixteen j hj) ⟨node, hnode, hclient, hid⟩ hseat
    exact hij ▸ hj
  refine ⟨hlt', fun mac node hnode hclient => ?_, fun i hi mac mac' hmac hmac' => ?_,
    fun i hi hi0 => ?_, spectators_update h fun node hnode hspec => ?_⟩
  · by_cases hmac : mac = sender
    · exact ⟨index, Finset.mem_insert_self _ _, hne, hmac ▸ hself⟩
    · rw [Function.update_of_ne hmac] at hnode
      obtain ⟨i, hi, hi0, hseat⟩ := h.seated mac node hnode hclient
      exact ⟨i, Finset.mem_insert_of_mem hi, hi0, (seated_update_of_ne hmac).mpr hseat⟩
  · -- a seat that somebody else is in is an old one, and the new client is in none of these
    have hself' {i : Nat} (hi : i ∈ insert index taken)
        (hseat : Seated (Function.update nodeMap sender _) sender i) : i = index :=
      Seated.index_eq (hlt' i hi) hlt hseat hself
    by_cases hsender : mac = sender
    · by_cases hsender' : mac' = sender
      · rw [hsender, hsender']
      · subst hsender
        have hold' := hother hi hsender' ((seated_update_of_ne hsender').mp hmac')
        exact absurd (hself' hi hmac ▸ hold') hfree
    · by_cases hsender' : mac' = sender
      · subst hsender'
        have hold' := hother hi hsender ((seated_update_of_ne hsender).mp hmac)
        exact absurd (hself' hi hmac' ▸ hold') hfree
      · rw [seated_update_of_ne hsender] at hmac
        rw [seated_update_of_ne hsender'] at hmac'
        exact h.unique i (hother hi hsender hmac) mac mac' hmac hmac'
  · rcases Finset.mem_insert.mp hi with rfl | hi
    · exact ⟨sender, hself⟩
    · obtain ⟨mac, hseat⟩ := h.occupied i hi hi0
      have hmac : mac ≠ sender := fun heq => hold.not_seated (heq ▸ hseat)
      exact ⟨mac, (seated_update_of_ne hmac).mpr hseat⟩
  · cases Option.some.inj hnode
    exact nomatch hspec

theorem Seating.leave (h : Seating nodeMap taken) (hindex : index ∈ taken)
    (hseat : Seated nodeMap sender index) :
    Seating (Function.update nodeMap sender none) (taken.erase index) := by
  have hgone {i : Nat} : ¬ Seated (Function.update nodeMap sender none) sender i :=
    (noClient_update fun _ (hnone : none = some _) => nomatch hnone).not_seated
  have hother {mac : μ} {i : Nat} (hmac : mac ≠ sender) (hseat' : Seated nodeMap mac i) :
      i ≠ index := by
    rintro rfl
    exact hmac (h.unique _ hindex _ _ hseat' hseat)
  refine ⟨fun i hi => h.lt_sixteen i (Finset.mem_of_mem_erase hi), fun mac node hnode hclient => ?_,
    fun i hi mac mac' hmac hmac' => ?_, fun i hi hi0 => ?_,
    spectators_update h fun _ (hnone : none = some _) => nomatch hnone⟩
  · by_cases hmac : mac = sender
    · rw [hmac, Function.update_self] at hnode
      exact nomatch hnode
    · rw [Function.update_of_ne hmac] at hnode
      obtain ⟨i, hi, hi0, hseat'⟩ := h.seated mac node hnode hclient
      exact ⟨i, Finset.mem_erase.mpr ⟨hother hmac hseat', hi⟩, hi0,
        (seated_update_of_ne hmac).mpr hseat'⟩
  · have hne : mac ≠ sender := fun heq => hgone (heq ▸ hmac)
    have hne' : mac' ≠ sender := fun heq => hgone (heq ▸ hmac')
    rw [seated_update_of_ne hne] at hmac
    rw [seated_update_of_ne hne'] at hmac'
    exact h.unique i (Finset.mem_of_mem_erase hi) mac mac' hmac hmac'
  · obtain ⟨hne, hi⟩ := Finset.mem_erase.mp hi
    obtain ⟨mac, hseat'⟩ := h.occupied i hi hi0
    have hmac : mac ≠ sender := by
      rintro rfl
      exact hne (Seated.index_eq (h.lt_sixteen i hi) (h.lt_sixteen _ hindex) hseat' hseat)
    exact ⟨mac, (seated_update_of_ne hmac).mpr hseat'⟩

end Seats

namespace Device

/-! ## The books of a host -/

/-- The books of a host say which seats are taken. -/
structure Books (d : Device μ) (taken : Finset Nat) : Prop where
  status : d.connectionStatus.status = .connectedAsHost
  maxNodes : d.connectionStatus.maxNodes ≤ 16
  networkMaxNodes : d.maxNodes = d.connectionStatus.maxNodes
  host : 0 ∈ taken
  lt_maxNodes : ∀ i ∈ taken, i < d.connectionStatus.maxNodes
  totalNodes : d.connectionStatus.totalNodes = taken.card
  networkTotalNodes : d.totalNodes = taken.card
  nodeBitmask : ∀ i < 16, d.connectionStatus.nodeBitmask.getLsbD i = decide (i ∈ taken)
  nodes : ∀ i : Fin 16,
    d.connectionStatus.nodes i = if i.val ∈ taken then UInt16.ofNat (i.val + 1) else 0
  length_nodeInfo : d.nodeInfo.length = d.connectionStatus.maxNodes
  nodeInfo : ∀ i (h : i < d.nodeInfo.length),
    d.nodeInfo[i].networkNodeId = if i ∈ taken then UInt16.ofNat (i + 1) else 0
  seating : Seating d.nodeMap taken

variable {d d' : Device μ} {taken : Finset Nat} {sender mac : μ} {node : NodeInfo}
  {entry : Option Node} {index : Nat}

omit [DecidableEq μ] in
theorem books_beginHostingNetwork {maxNodes : Nat} (hmap : ∀ mac, d.nodeMap mac = none)
    (hmax : maxNodes ≤ 16)
    (h : (d.initializeDevice node).beginHostingNetwork mac maxNodes = .ok d') : d'.Books {0} := by
  rw [beginHostingNetwork] at h
  split at h
  · exact nomatch h
  · next hmin =>
    cases h
    constructor
    case nodeBitmask =>
      intro i hi
      have hzero : (0 : BitVec 16).getLsbD i = false := BitVec.getLsbD_zero
      simp only [initializeDevice, BitVec.getLsbD_or, hzero, getLsbD_nodeBit, hi, decide_true,
        Bool.true_and, Bool.false_or, Finset.mem_singleton, eq_comm]
    case nodes =>
      intro i
      simp only [initializeDevice, Function.update_apply, Finset.mem_singleton]
      by_cases hi : i = 0
      · simp [hi]
      · have hval : ¬ i.val = 0 := fun hval => hi (Fin.ext hval)
        rw [if_neg hi, if_neg hval]
    case nodeInfo =>
      intro i hi
      simp only [List.getElem_set, Finset.mem_singleton, List.getElem_replicate]
      by_cases hi0 : i = 0
      · simp [hi0]
      · rw [if_neg fun h => hi0 h.symm, if_neg hi0]
        rfl
    case seating =>
      refine ⟨fun i hi => by simp at hi; omega, fun mac node hnode => ?_, fun i _ mac mac' hmac => ?_,
        fun i hi hi0 => absurd (Finset.mem_singleton.mp hi) hi0, fun mac node hnode => ?_⟩
      · exact nomatch (hmap mac).symm.trans hnode
      · obtain ⟨node, hnode, -⟩ := hmac
        exact nomatch (hmap mac).symm.trans hnode
      · exact nomatch (hmap mac).symm.trans hnode
    case lt_maxNodes =>
      intro i hi
      have hi0 := Finset.mem_singleton.mp hi
      simp only
      omega
    all_goals simp_all

theorem Books.update (h : d.Books taken) (hold : NoClient d.nodeMap sender)
    (hnew : ∀ node, entry = some node → node.isClient = false)
    (hspec : ∀ node, entry = some node → node.spec = true → node.nodeId = nodeIDSpec) :
    ({ d with nodeMap := Function.update d.nodeMap sender entry } : Device μ).Books taken :=
  { h with seating := h.seating.update hold hnew hspec }

omit [DecidableEq μ] in
theorem Books.clearNode (h : d.Books taken) (hfree : index ∉ taken) :
    ({ d with nodeInfo := d.nodeInfo.set index .zero } : Device μ).Books taken := by
  refine { h with length_nodeInfo := (List.length_set).trans h.length_nodeInfo, nodeInfo := ?_ }
  intro i hi
  simp only [List.getElem_set]
  split
  · next heq => rw [← heq, if_neg hfree]; rfl
  · exact h.nodeInfo i _

theorem Books.seatClient (h : d.Books taken) (hold : NoClient d.nodeMap sender)
    (hfree : index ∉ taken) (hlt : index < d.connectionStatus.maxNodes)
    (hnode : node.networkNodeId = UInt16.ofNat (index + 1)) :
    (d.seatClient sender index node).Books (insert index taken) := by
  have hlt' : index < 16 := hlt.trans_le h.maxNodes
  have hne : index ≠ 0 := fun h0 => hfree (h0 ▸ h.host)
  constructor
  case status => exact h.status
  case maxNodes => exact h.maxNodes
  case networkMaxNodes => exact h.networkMaxNodes
  case host => exact Finset.mem_insert_of_mem h.host
  case lt_maxNodes =>
    intro i hi
    rcases Finset.mem_insert.mp hi with rfl | hi
    exacts [hlt, h.lt_maxNodes i hi]
  case totalNodes => rw [Finset.card_insert_of_notMem hfree, ← h.totalNodes]; rfl
  case networkTotalNodes => rw [Finset.card_insert_of_notMem hfree, ← h.networkTotalNodes]; rfl
  case nodeBitmask =>
    intro i hi
    have hbit := h.nodeBitmask i hi
    simp only [Device.seatClient, BitVec.getLsbD_or, getLsbD_nodeBit, hi, decide_true, Bool.true_and,
      hbit, Finset.mem_insert]
    grind
  case nodes =>
    intro i
    have hi := h.nodes i
    simp only [Device.seatClient, Finset.mem_insert]
    grind
  case length_nodeInfo => exact (List.length_set).trans h.length_nodeInfo
  case nodeInfo =>
    intro i hi
    have hi' : i < d.nodeInfo.length := by simpa only [Device.seatClient, List.length_set] using hi
    have hinfo := h.nodeInfo i hi'
    simp only [Device.seatClient, List.getElem_set, Finset.mem_insert]
    grind
  case seating => exact h.seating.sit hold hfree hne hlt'

theorem Books.freeSeat (h : d.Books taken) (hindex : index ∈ taken) (hne : index ≠ 0)
    (hseat : Seated d.nodeMap sender index) :
    ({ ({ d with nodeMap := Function.update d.nodeMap sender none } : Device μ).freeSeat index with
      nodeInfo := d.nodeInfo.set index .zero } : Device μ).Books (taken.erase index) := by
  constructor
  case status => exact h.status
  case maxNodes => exact h.maxNodes
  case networkMaxNodes => exact h.networkMaxNodes
  case host => exact Finset.mem_erase.mpr ⟨hne.symm, h.host⟩
  case lt_maxNodes => exact fun i hi => h.lt_maxNodes i (Finset.mem_of_mem_erase hi)
  case totalNodes => rw [Finset.card_erase_of_mem hindex, ← h.totalNodes]; rfl
  case networkTotalNodes => rw [Finset.card_erase_of_mem hindex, ← h.networkTotalNodes]; rfl
  case nodeBitmask =>
    intro i hi
    have hbit := h.nodeBitmask i hi
    simp only [Device.freeSeat, BitVec.getLsbD_and, BitVec.getLsbD_not, getLsbD_nodeBit, hi,
      decide_true, Bool.true_and, hbit, Finset.mem_erase]
    grind
  case nodes =>
    intro i
    have hi := h.nodes i
    simp only [Device.freeSeat, Finset.mem_erase]
    grind
  case length_nodeInfo => exact (List.length_set).trans h.length_nodeInfo
  case nodeInfo =>
    intro i hi
    have hi' : i < d.nodeInfo.length := by simpa only [List.length_set] using hi
    have hinfo := h.nodeInfo i hi'
    simp only [List.getElem_set, Finset.mem_erase]
    by_cases heq : index = i
    · simp [heq, NodeInfo.zero]
    · rw [if_neg heq, hinfo]
      grind
  case seating => exact h.seating.leave hindex hseat

omit [DecidableEq μ] in
/-- The index that is found is free, and there is one unless the network is full. -/
theorem Books.nextAvailableIndex (h : d.Books taken) :
    (∀ index, d.nextAvailableIndex = some index →
        index ∉ taken ∧ index < d.connectionStatus.maxNodes) ∧
      (d.connectionStatus.maxNodes ≠ d.connectionStatus.totalNodes →
        d.nextAvailableIndex ≠ none) := by
  have hbit {i : Nat} (hi : i < d.connectionStatus.maxNodes) :
      d.connectionStatus.nodeBitmask &&& nodeBit i = 0 ↔ i ∉ taken := by
    have hi' := hi.trans_le h.maxNodes
    rw [and_nodeBit_eq_zero hi', h.nodeBitmask i hi', decide_eq_false_iff_not]
  constructor
  · intro index hindex
    obtain ⟨hfree, hlt, -⟩ := List.find?_range_eq_some.mp hindex
    have hlt' := List.mem_range.mp hlt
    exact ⟨(hbit hlt').mp (of_decide_eq_true hfree), hlt'⟩
  · intro hfull hnone
    have hall : ∀ i < d.connectionStatus.maxNodes, i ∈ taken := by
      intro i hi
      have hi' := List.find?_eq_none.mp hnone i (List.mem_range.mpr hi)
      exact not_not.mp fun hfree => hi' (decide_eq_true ((hbit hi).mpr hfree))
    have hsame : taken = Finset.range d.connectionStatus.maxNodes := by
      ext i
      rw [Finset.mem_range]
      exact ⟨h.lt_maxNodes i, hall i⟩
    exact hfull (by rw [h.totalNodes, hsame, Finset.card_range])

omit [DecidableEq μ] in
theorem noClient_of_not_connected {entry : Node} (hentry : d.nodeMap sender = some entry)
    (hconnected : ¬ entry.connected = true) : NoClient d.nodeMap sender := by
  intro node hnode
  cases Option.some.inj (hentry.symm.trans hnode)
  simp [Node.isClient, hconnected]

/-- A frame leaves the books in order, or an assertion fails. -/
def InOrder (r : Except Stop (Device μ × List (WifiPacket μ))) : Prop :=
  r ≠ .error .unreachable ∧ ∀ result, r = .ok result → ∃ taken, result.1.Books taken

omit [DecidableEq μ] in
theorem Books.inOrder {packets : List (WifiPacket μ)} (h : d.Books taken) :
    InOrder (.ok (d, packets)) :=
  ⟨(nomatch ·), fun _ hresult => ⟨taken, Except.ok.inj hresult ▸ h⟩⟩

theorem Books.eapolStart {connectionType : ConnectionType} (h : d.Books taken) :
    InOrder (d.handleEAPoLStart sender connectionType node) := by
  unfold handleEAPoLStart
  rw [if_neg (not_not.mpr h.status)]
  split
  · exact h.inOrder
  · next entry hentry =>
    split
    · exact h.inOrder
    · next hconnected =>
      have hold := noClient_of_not_connected hentry hconnected
      split
      · exact ⟨(nomatch ·), fun _ herror => nomatch herror⟩
      · next hroom =>
        split
        · split
          · next hnone => exact absurd hnone (h.nextAvailableIndex.2 hroom)
          · next index hindex =>
            obtain ⟨hfree, hlt⟩ := h.nextAvailableIndex.1 index hindex
            exact (h.seatClient hold hfree hlt rfl).inOrder
        · exact (h.update hold (fun _ hnode => Option.some.inj hnode ▸ rfl)
            fun _ hnode _ => Option.some.inj hnode ▸ rfl).inOrder
        · exact h.inOrder

theorem Books.deauthentication (h : d.Books taken) :
    ∃ taken', (d.handleDeauthenticationFrame sender).Books taken' := by
  rw [handleDeauthenticationFrame, if_neg (by simp [h.status])]
  split
  · exact ⟨taken, h⟩
  · next entry hentry =>
    by_cases hclient : entry.isClient = true
    · -- the client is the one of a taken seat, whose node is the first with its id
      obtain ⟨hconnected, hspec⟩ : entry.connected = true ∧ entry.spec = false := by
        simpa [Node.isClient] using hclient
      obtain ⟨i, hi, hne, hseat⟩ := h.seating.seated sender entry hentry hclient
      have hid : entry.nodeId = UInt16.ofNat (i + 1) := by
        obtain ⟨node, hnode, -, hid⟩ := hseat
        exact Option.some.inj (hentry.symm.trans hnode) ▸ hid
      have hi16 := h.seating.lt_sixteen i hi
      have hfind : d.nodeInfo.findIdx? (·.networkNodeId = entry.nodeId) = some i := by
        have hlt : i < d.nodeInfo.length := h.length_nodeInfo ▸ h.lt_maxNodes i hi
        refine List.findIdx?_eq_some_iff_getElem.mpr ⟨hlt, ?_, fun j hj hsame => ?_⟩
        · rw [h.nodeInfo i hlt, if_pos hi, hid]
          exact decide_eq_true rfl
        · have hsame' := of_decide_eq_true hsame
          rw [h.nodeInfo j (hj.trans hlt), hid] at hsame'
          split at hsame'
          · exact absurd (nodeId_inj (by omega) hi16 hsame') (by omega)
          · exact nodeId_ne_zero hi16 hsame'.symm
      have hindex : entry.nodeId.toNat - 1 = i := by
        rw [hid, toNat_nodeId hi16]
        omega
      rw [hfind]
      simp only [hconnected, hspec, hindex]
      exact ⟨taken.erase i, h.freeSeat hi hne hseat⟩
    · have hold : NoClient d.nodeMap sender := fun node hnode => by
        cases Option.some.inj (hentry.symm.trans hnode)
        exact Bool.eq_false_iff.mpr hclient
      have hupdate := @Books.update μ _ d taken sender none h hold (fun _ hnode => nomatch hnode)
        fun _ hnode => nomatch hnode
      split
      · exact ⟨taken, hupdate⟩
      · next hconnected =>
        have hspec : entry.spec = true := by simp_all [Node.isClient]
        split
        · exact ⟨taken, hupdate⟩
        · next i hfind =>
          -- a spectator has the id of a free seat
          obtain ⟨hlt, hsame, -⟩ := List.findIdx?_eq_some_iff_getElem.mp hfind
          have hfree : i ∉ taken := fun hi => by
            have hsame' := of_decide_eq_true hsame
            rw [h.nodeInfo i hlt, if_pos hi, h.seating.spectators sender entry hentry hspec] at hsame'
            exact nodeId_ne_zero (h.seating.lt_sixteen i hi) hsame'
          simp only [hspec, if_true]
          exact ⟨taken, hupdate.clearNode hfree⟩

/-- A frame leaves the books of a host in order, unless an assertion fails. -/
theorem Books.handle {frame : Frame μ} (h : d.Books taken) : InOrder (d.handle sender frame) := by
  cases frame with
  | authentication seq1 =>
      rw [Device.handle, handleAuthenticationFrame]
      split
      · exact h.inOrder
      · next hchecks =>
        have hnone : d.nodeMap sender = none := by simp_all
        exact (h.update (fun _ hnode => nomatch hnone.symm.trans hnode)
          (fun _ hnode => Option.some.inj hnode ▸ rfl)
          fun _ hnode _ => Option.some.inj hnode ▸ rfl).inOrder
  | associationResponse associationId => exact h.inOrder
  | eapolStart _ connectionType node => exact h.eapolStart
  | eapolLogoff assignedNodeId connectedNodes maxNodes nodes =>
      rw [Device.handle, handleEAPoLLogoff, h.status]
      exact h.inOrder
  | nodeMap nodes =>
      rw [Device.handle, handleNodeMapPacket, if_pos h.status]
      exact h.inOrder
  | deauthentication =>
      obtain ⟨taken', h'⟩ := @Books.deauthentication μ _ d taken sender h
      exact h'.inOrder

/-! ## Runs -/

/-- The states of a host that frames lead to. -/
inductive HostReachable : Device μ → Prop
  | begin {d d' : Device μ} {node : NodeInfo} {mac : μ} {maxNodes : Nat}
      (hmap : ∀ mac, d.nodeMap mac = none) (hmax : maxNodes ≤ 16)
      (h : (d.initializeDevice node).beginHostingNetwork mac maxNodes = .ok d') : HostReachable d'
  | frame {d d' : Device μ} {sender : μ} {frame : Frame μ} {packets : List (WifiPacket μ)}
      (h : HostReachable d) (hstep : d.handle sender frame = .ok (d', packets)) : HostReachable d'

theorem HostReachable.books (h : HostReachable d) : ∃ taken, d.Books taken := by
  induction h with
  | begin hmap hmax h => exact ⟨{0}, books_beginHostingNetwork hmap hmax h⟩
  | @frame d d' sender frame packets _ hstep ih =>
      obtain ⟨taken, ih⟩ := ih
      exact ih.handle.2 (d', packets) hstep

variable (d) in
def clients : Set μ := {mac | ∃ node, d.nodeMap mac = some node ∧ node.isClient = true}

variable (d) in
/-- The books agree: on the number of nodes, on the taken ids, and with the limit. -/
structure HostBooks : Prop where
  bits : d.connectionStatus.totalNodes =
    (Finset.univ.filter fun i : Fin 16 => d.connectionStatus.nodeBitmask.getLsbD i).card
  nodes : d.connectionStatus.totalNodes =
    (Finset.univ.filter fun i : Fin 16 => d.connectionStatus.nodes i ≠ 0).card
  clients : d.connectionStatus.totalNodes = 1 + d.clients.ncard
  distinct : ∀ mac ∈ d.clients, ∀ mac' ∈ d.clients,
    (d.nodeMap mac).map (·.nodeId) = (d.nodeMap mac').map (·.nodeId) → mac = mac'
  length_nodeInfo : d.nodeInfo.length = d.connectionStatus.maxNodes
  nodeInfo : ∀ i (h : i < d.nodeInfo.length), d.nodeInfo[i].networkNodeId = UInt16.ofNat (i + 1) ↔
    d.connectionStatus.nodeBitmask.getLsbD i = true
  le_maxNodes : d.connectionStatus.totalNodes ≤ d.connectionStatus.maxNodes

theorem card_filter_val (h : ∀ i ∈ taken, i < 16) :
    (Finset.univ.filter fun i : Fin 16 => i.val ∈ taken).card = taken.card :=
  Finset.card_bij (fun i _ => i.val) (fun _ hi => (Finset.mem_filter.mp hi).2)
    (fun _ _ _ _ hval => Fin.ext hval) fun i hi =>
      ⟨⟨i, h i hi⟩, Finset.mem_filter.mpr ⟨Finset.mem_univ _, hi⟩, rfl⟩

omit [DecidableEq μ] in
theorem Books.ncard_clients (h : d.Books taken) : d.clients.ncard = (taken.erase 0).card := by
  rw [← Set.ncard_coe_finset]
  have hseat {mac : μ} (hmac : mac ∈ d.clients) : ∃ i ∈ taken, i ≠ 0 ∧ Seated d.nodeMap mac i := by
    obtain ⟨node, hnode, hclient⟩ := hmac
    exact h.seating.seated mac node hnode hclient
  refine Set.ncard_congr (fun mac hmac => (hseat hmac).choose) (fun mac hmac => ?_)
    (fun mac mac' hmac hmac' heq => ?_) fun i hi => ?_
  · obtain ⟨hi, hne, -⟩ := (hseat hmac).choose_spec
    exact Finset.mem_coe.mpr (Finset.mem_erase.mpr ⟨hne, hi⟩)
  · obtain ⟨hi, -, hseated⟩ := (hseat hmac).choose_spec
    obtain ⟨-, -, hseated'⟩ := (hseat hmac').choose_spec
    exact h.seating.unique _ hi mac mac' hseated (heq ▸ hseated')
  · obtain ⟨hne, hi⟩ := Finset.mem_erase.mp (Finset.mem_coe.mp hi)
    obtain ⟨mac, hseated⟩ := h.seating.occupied i hi hne
    have hmac : mac ∈ d.clients := ⟨hseated.choose, hseated.choose_spec.1, hseated.choose_spec.2.1⟩
    obtain ⟨hj, -, hseated'⟩ := (hseat hmac).choose_spec
    exact ⟨mac, hmac, Seated.index_eq (h.seating.lt_sixteen _ hj) (h.seating.lt_sixteen i hi)
      hseated' hseated⟩

omit [DecidableEq μ] in
theorem Books.toHostBooks (h : d.Books taken) : d.HostBooks where
  bits := by
    rw [h.totalNodes, ← card_filter_val h.seating.lt_sixteen]
    refine congrArg Finset.card (Finset.filter_congr fun i _ => ?_)
    rw [h.nodeBitmask i i.isLt, decide_eq_true_iff]
  nodes := by
    rw [h.totalNodes, ← card_filter_val h.seating.lt_sixteen]
    refine congrArg Finset.card (Finset.filter_congr fun i _ => ?_)
    rw [h.nodes i]
    by_cases hi : i.val ∈ taken
    · rw [if_pos hi]
      exact iff_of_true hi (nodeId_ne_zero i.isLt)
    · rw [if_neg hi]
      exact iff_of_false hi (not_not.mpr rfl)
  clients := by
    rw [h.ncard_clients, h.totalNodes, Finset.card_erase_of_mem h.host]
    have hpos := Finset.card_pos.mpr ⟨0, h.host⟩
    omega
  distinct := by
    rintro mac ⟨node, hnode, hclient⟩ mac' ⟨node', hnode', hclient'⟩ hid
    obtain ⟨i, hi, -, hseat⟩ := h.seating.seated mac node hnode hclient
    have hseat' : Seated d.nodeMap mac' i := by
      obtain ⟨_, hsame, -, hid'⟩ := hseat
      cases Option.some.inj (hnode.symm.trans hsame)
      rw [hnode, hnode'] at hid
      exact ⟨node', hnode', hclient', (Option.some.inj hid).symm.trans hid'⟩
    exact h.seating.unique i hi mac mac' hseat hseat'
  length_nodeInfo := h.length_nodeInfo
  nodeInfo := by
    intro i hi
    have hi16 : i < 16 := (h.length_nodeInfo ▸ hi).trans_le h.maxNodes
    rw [h.nodeInfo i hi, h.nodeBitmask i hi16, decide_eq_true_iff]
    by_cases htaken : i ∈ taken
    · simp [htaken]
    · simp only [htaken, if_false, iff_false]
      exact (nodeId_ne_zero hi16).symm
  le_maxNodes := by
    rw [h.totalNodes, ← Finset.card_range d.connectionStatus.maxNodes]
    exact Finset.card_le_card fun i hi => Finset.mem_range.mpr (h.lt_maxNodes i hi)

/-- The state of a host behind some frames. -/
def afterFrames (d : Device μ) (frames : List (μ × Frame μ)) : Except Stop (Device μ) :=
  frames.foldlM (fun d f => (d.handle f.1 f.2).map Prod.fst) d

theorem HostReachable.afterFrames {frames : List (μ × Frame μ)} (h : HostReachable d)
    (hframes : d.afterFrames frames = .ok d') : HostReachable d' := by
  induction frames generalizing d with
  | nil => exact Except.ok.inj hframes ▸ h
  | cons f frames ih =>
      rw [Device.afterFrames, List.foldlM_cons] at hframes
      cases hhandle : d.handle f.1 f.2 with
      | error stop => rw [hhandle] at hframes; exact nomatch hframes
      | ok result =>
          rw [hhandle] at hframes
          exact ih (h.frame hhandle) hframes

section Example

/-- A console that is not in a network. -/
def console : Device Nat := { hostMacAddress := 0, currentNode := .zero }

/-- The console hosts a network for two. -/
def hostOfTwo : Device Nat :=
  match (console.initializeDevice .zero).beginHostingNetwork 0 2 with
  | .ok d => d
  | .error _ => console

theorem hostReachable_hostOfTwo : HostReachable hostOfTwo :=
  @HostReachable.begin Nat _ console _ .zero 0 2 (fun _ => rfl) (by decide) rfl

/-- Two consoles join as spectators. -/
def twoSpectators : List (Nat × Frame Nat) :=
  [(1, .authentication true), (2, .authentication true), (1, .eapolStart 1 .spectator .zero),
    (2, .eapolStart 1 .spectator .zero)]

/-- Two consoles want the one free seat. -/
def twoClients : List (Nat × Frame Nat) :=
  [(1, .authentication true), (2, .authentication true), (1, .eapolStart 1 .client .zero)]

end Example

end Device

end Cytrus.Nwm
