import Cytrus.Support.PackedTable

/-!
# Encrypted data tags of a beacon

A beacon carries the nodes of a network in two tags. The payload of the tags is
as large as the nodes are in memory, but the nodes take less room in it, and so
the tags are filled up with what lies behind the encrypted data.

## Main results

* `decryptBeaconData_generated`: the nodes come back from a beacon that is made
* `not_roundTrips`: no beacon keeps to the encrypted data

## Implementation notes

AES-CTR adds a stream of bytes that depends on the counter only. The stream and
MD5 are parameters, and so is what lies behind a vector in memory. The part of
the frame in front of the data tags is left out.
-/

namespace Cytrus.Nwm

open Support

@[ext] structure NodeInfo where
  friendCodeSeed : UInt64
  username : Fin 10 → UInt16
  networkNodeId : UInt16

def sizeofNodeInfo : Nat := 40

/-- The part of `NetworkInfo` that the data tags depend on. -/
structure NetworkInfo where
  hostMacAddress : Fin 6 → UInt8
  wlanCommId : UInt32
  id : UInt8
  networkId : UInt32
  maxNodes : UInt8

def nintendoOUI : List UInt8 := [0x00, 0x1F, 0x32]

def vendorSpecific : UInt8 := 221

def encryptedData0 : UInt8 := 24

def encryptedData1 : UInt8 := 25

def encryptedDataSizeCutoff : Nat := 0xFA

/-! ## Nodes as bytes -/

/-- A number of `width` bytes, the most significant one first. -/
def bigEndian (width n : Nat) : List UInt8 := (toBytes width n).reverse

def bigEndian16 (c : UInt16) : List UInt8 := bigEndian 2 c.toNat

/-- The bytes of `BeaconNodeInfo`. -/
def NodeInfo.serialize (node : NodeInfo) : List UInt8 :=
  bigEndian 8 node.friendCodeSeed.toNat ++
    ((List.ofFn node.username).flatMap bigEndian16 ++ bigEndian16 node.networkNodeId)

/-- The number that the bytes of a `u16_be` stand for. -/
def ofBigEndian16 (bytes : List UInt8) : UInt16 := UInt16.ofNat (ofBytes bytes.reverse)

/-- The node that the bytes of a `BeaconNodeInfo` stand for. -/
def NodeInfo.deserialize (bytes : List UInt8) : NodeInfo where
  friendCodeSeed := UInt64.ofNat (ofBytes (bytes.take 8).reverse)
  username i := ofBigEndian16 (((bytes.drop 8).drop (2 * i)).take 2)
  networkNodeId := ofBigEndian16 ((bytes.drop 28).take 2)

def sizeofBeaconNodeInfo : Nat := 0x1E

def sizeofBeaconData : Nat := 0x12

@[simp] theorem length_bigEndian (width n : Nat) : (bigEndian width n).length = width := by
  simp [bigEndian]

theorem ofBytes_bigEndian {width n : Nat} (h : n < 256 ^ width) :
    ofBytes (bigEndian width n).reverse = n := by
  rw [bigEndian, List.reverse_reverse, ofBytes_toBytes, Nat.mod_eq_of_lt h]

@[simp] theorem length_bigEndian16 (c : UInt16) : (bigEndian16 c).length = 2 := length_bigEndian 2 _

@[simp] theorem ofBigEndian16_bigEndian16 (c : UInt16) : ofBigEndian16 (bigEndian16 c) = c := by
  rw [ofBigEndian16, bigEndian16, ofBytes_bigEndian c.toNat_lt, UInt16.ofNat_toNat]

variable (node : NodeInfo)

theorem length_username : ((List.ofFn node.username).flatMap bigEndian16).length = 20 := by
  rw [length_flatMap_width length_bigEndian16, List.length_ofFn]

theorem length_serialize : node.serialize.length = sizeofBeaconNodeInfo := by
  rw [NodeInfo.serialize, List.length_append, List.length_append, length_username, length_bigEndian,
    length_bigEndian16]
  rfl

theorem deserialize_serialize : NodeInfo.deserialize node.serialize = node := by
  have hname : node.serialize.drop 8 =
      (List.ofFn node.username).flatMap bigEndian16 ++ bigEndian16 node.networkNodeId :=
    List.drop_left' (length_bigEndian 8 _)
  refine NodeInfo.ext ?_ (funext fun i => ?_) ?_
  · simp only [NodeInfo.deserialize]
    rw [NodeInfo.serialize, List.take_left' (length_bigEndian 8 _),
      ofBytes_bigEndian node.friendCodeSeed.toNat_lt, UInt64.ofNat_toNat]
  · have hc : (List.ofFn node.username)[i.val]? = some (node.username i) := by
      rw [List.getElem?_ofFn, dif_pos i.isLt]
    simp only [NodeInfo.deserialize]
    rw [hname, take_drop_flatMap length_bigEndian16 hc, ofBigEndian16_bigEndian16]
  · have hid : node.serialize.drop 28 = bigEndian16 node.networkNodeId := by
      calc node.serialize.drop 28
          = (node.serialize.drop 8).drop 20 := by rw [List.drop_drop]
        _ = bigEndian16 node.networkNodeId := by rw [hname, List.drop_left' (length_username node)]
    simp only [NodeInfo.deserialize]
    rw [hid, List.take_of_length_le (length_bigEndian16 _).le, ofBigEndian16_bigEndian16]

/-! ## Tags -/

/-- `ProcessData` of AES-CTR, given its stream. -/
def processData (stream : Nat → UInt8) (bytes : List UInt8) : List UInt8 :=
  bytes.mapIdx fun i x => x ^^^ stream i

/-- `n` bytes from `offset` on, some of them perhaps from behind the vector. -/
def copied (behind : Nat → UInt8) (bytes : List UInt8) (offset n : Nat) : List UInt8 :=
  (List.range n).map fun i => bytes[offset + i]?.getD (behind (offset + i))

/-- An `EncryptedDataTag`, and its payload. -/
def dataTag (ouiType : UInt8) (payload : List UInt8) : List UInt8 :=
  [vendorSpecific, UInt8.ofNat (4 + payload.length)] ++ (nintendoOUI ++ [ouiType]) ++ payload

def getBeaconCryptoCTR (info : NetworkInfo) : List UInt8 :=
  List.ofFn info.hostMacAddress ++ toBytes 4 info.wlanCommId.toNat ++ [info.id, 0] ++
    toBytes 4 info.networkId.toNat

section Frame

variable (keystream : List UInt8 → Nat → UInt8) (md5 : List UInt8 → Fin 16 → UInt8)
  (info : NetworkInfo) (nodes : List NodeInfo)

/-- The buffer of `GeneratedEncryptedData` before its encryption. -/
def beaconData : List UInt8 :=
  let data := [0, 0] ++ nodes.flatMap NodeInfo.serialize
  List.ofFn (md5 data) ++ data

def generatedEncryptedData : List UInt8 :=
  processData (keystream (getBeaconCryptoCTR info)) (beaconData md5 nodes)

/-- The payload size of the first tag. -/
def firstPayloadSize : Nat := min encryptedDataSizeCutoff (nodes.length * sizeofNodeInfo)

/-- The payload size of the second tag. -/
def secondPayloadSize : Nat := nodes.length * sizeofNodeInfo - encryptedDataSizeCutoff

/-- `GenerateNintendoFirstEncryptedDataTag`. -/
def generateFirstEncryptedDataTag (behind : Nat → UInt8) : List UInt8 :=
  dataTag encryptedData0
    (copied behind (generatedEncryptedData keystream md5 info nodes) 0 (firstPayloadSize nodes))

/-- `GenerateNintendoSecondEncryptedDataTag`, unless the data is too big. -/
def generateSecondEncryptedDataTag (behind : Nat → UInt8) : Option (List UInt8) :=
  if nodes.length * sizeofNodeInfo ≤ encryptedDataSizeCutoff then some []
  else if 255 < 4 + secondPayloadSize nodes then none
  else some (dataTag encryptedData1 (copied behind (generatedEncryptedData keystream md5 info nodes)
    encryptedDataSizeCutoff (secondPayloadSize nodes)))

/-- `GenerateBeaconFrame` behind the tags of `front`, unless an assertion fails. -/
def generateBeaconFrame (front : List UInt8) (behind₀ behind₁ : Nat → UInt8) :
    Option (List UInt8) :=
  if info.maxNodes.toNat ≠ nodes.length then none
  else (generateSecondEncryptedDataTag keystream md5 info nodes behind₁).map fun second =>
    front ++ generateFirstEncryptedDataTag keystream md5 info nodes behind₀ ++ second

/-- `DecryptBeaconData`, unless an assertion fails or the buffers are too short. -/
def decryptBeaconData (buffer₀ buffer₁ : List UInt8) : Option (List NodeInfo) :=
  if buffer₀.length < 4 ∨ buffer₁.length < 4 then none
  else if buffer₀.take 4 ≠ nintendoOUI ++ [encryptedData0] then none
  else
    let data := processData (keystream (getBeaconCryptoCTR info)) (buffer₀.drop 4 ++ buffer₁.drop 4)
    if data.length < sizeofBeaconData + sizeofBeaconNodeInfo * info.maxNodes.toNat then none
    else some ((List.range info.maxNodes.toNat).map fun i =>
      .deserialize (((data.drop sizeofBeaconData).drop (sizeofBeaconNodeInfo * i)).take
        sizeofBeaconNodeInfo))

/-- The buffer that `DecryptBeaconData` gets for a tag, which may be missing. -/
def fedBuffer (ouiType : UInt8) (tag : List UInt8) : List UInt8 :=
  nintendoOUI ++ [ouiType] ++ tag.drop 6

/-- The beacon of a network is made of its encrypted data and gives the nodes back. -/
structure RoundTrips : Prop where
  size : ∀ front behind₀ behind₁,
    (generateBeaconFrame keystream md5 info nodes front behind₀ behind₁).isSome
  first : firstPayloadSize nodes ≤ (generatedEncryptedData keystream md5 info nodes).length
  second : encryptedDataSizeCutoff < nodes.length * sizeofNodeInfo →
    encryptedDataSizeCutoff + secondPayloadSize nodes ≤
      (generatedEncryptedData keystream md5 info nodes).length
  decrypts : ∀ behind₀ behind₁ second,
    generateSecondEncryptedDataTag keystream md5 info nodes behind₁ = some second →
    decryptBeaconData keystream info
      (fedBuffer encryptedData0 (generateFirstEncryptedDataTag keystream md5 info nodes behind₀))
      (fedBuffer encryptedData1 second) = some nodes

end Frame

section Stream

variable {stream : Nat → UInt8} {bytes : List UInt8} {behind : Nat → UInt8} {n m : Nat}

@[simp] theorem length_processData : (processData stream bytes).length = bytes.length := by
  simp [processData]

theorem processData_processData : processData stream (processData stream bytes) = bytes := by
  apply List.ext_getElem?
  intro i
  simp only [processData, List.getElem?_mapIdx, Option.map_map]
  cases bytes[i]? with
  | none => rfl
  | some x =>
      have hx : x ^^^ stream i ^^^ stream i = x := by
        rw [UInt8.xor_assoc, UInt8.xor_self, UInt8.xor_zero]
      exact congrArg some hx

theorem take_processData : (processData stream bytes).take n = processData stream (bytes.take n) := by
  apply List.ext_getElem?
  intro i
  simp only [processData, List.getElem?_mapIdx, List.getElem?_take]
  split <;> rfl

@[simp] theorem length_copied : (copied behind bytes n m).length = m := by simp [copied]

theorem getElem?_copied {i : Nat} (hi : i < m) (hbytes : n + i < bytes.length) :
    (copied behind bytes n m)[i]? = bytes[n + i]? := by
  simp [copied, hi, List.getElem?_eq_getElem hbytes]

end Stream

theorem fedBuffer_dataTag (ouiType ouiType' : UInt8) (payload : List UInt8) :
    fedBuffer ouiType (dataTag ouiType' payload) = nintendoOUI ++ [ouiType] ++ payload := rfl

section RoundTrip

variable {keystream : List UInt8 → Nat → UInt8} {md5 : List UInt8 → Fin 16 → UInt8}
  {info : NetworkInfo} {nodes : List NodeInfo}

theorem length_beaconData :
    (beaconData md5 nodes).length = sizeofBeaconData + sizeofBeaconNodeInfo * nodes.length := by
  simp only [beaconData, List.length_append, List.length_ofFn, length_flatMap_width length_serialize]
  rw [← Nat.add_assoc]
  rfl

theorem length_generatedEncryptedData :
    (generatedEncryptedData keystream md5 info nodes).length =
      sizeofBeaconData + sizeofBeaconNodeInfo * nodes.length := by
  rw [generatedEncryptedData, length_processData, length_beaconData]

theorem drop_beaconData (rest : List UInt8) :
    (beaconData md5 nodes ++ rest).drop sizeofBeaconData =
      nodes.flatMap NodeInfo.serialize ++ rest := by
  have hheader : (List.ofFn (md5 ([0, 0] ++ nodes.flatMap NodeInfo.serialize)) ++ [0, 0]).length =
      sizeofBeaconData := by
    rw [List.length_append, List.length_ofFn]
    rfl
  rw [beaconData, ← List.append_assoc (List.ofFn _), List.append_assoc, List.drop_left' hheader]

theorem take_payloads {behind : Nat → UInt8} {data rest : List UInt8} {n : Nat}
    (hrest : ∀ i, n ≤ i → i < data.length → rest[i - n]? = data[i]?) :
    (copied behind data 0 n ++ rest).take data.length = data := by
  apply List.ext_getElem?
  intro i
  rw [List.getElem?_take]
  split
  · next hi =>
    by_cases hfirst : i < n
    · rw [List.getElem?_append_left (by simpa using hfirst), getElem?_copied hfirst (by omega),
        Nat.zero_add]
    · rw [List.getElem?_append_right (by simpa using hfirst), length_copied, hrest i (by omega) hi]
  · next hi => exact (List.getElem?_eq_none (by omega)).symm

theorem decryptBeaconData_of_take {payload₀ payload₁ : List UInt8} {ouiType : UInt8}
    (hmax : info.maxNodes.toNat = nodes.length)
    (htake : (payload₀ ++ payload₁).take (generatedEncryptedData keystream md5 info nodes).length =
      generatedEncryptedData keystream md5 info nodes) :
    decryptBeaconData keystream info (nintendoOUI ++ [encryptedData0] ++ payload₀)
      (nintendoOUI ++ [ouiType] ++ payload₁) = some nodes := by
  generalize hdata : processData (keystream (getBeaconCryptoCTR info)) (payload₀ ++ payload₁) = data
  have hplain : data.take (beaconData md5 nodes).length = beaconData md5 nodes := by
    rw [length_generatedEncryptedData, ← @length_beaconData md5] at htake
    rw [← hdata, take_processData, htake, generatedEncryptedData, processData_processData]
  have hlength : (beaconData md5 nodes).length ≤ data.length := by
    have htaken := congrArg List.length hplain
    rw [List.length_take] at htaken
    omega
  have hrest : data.drop sizeofBeaconData =
      nodes.flatMap NodeInfo.serialize ++ data.drop (beaconData md5 nodes).length := by
    calc data.drop sizeofBeaconData
        = (beaconData md5 nodes ++ data.drop (beaconData md5 nodes).length).drop
            sizeofBeaconData := by
          conv_lhs => rw [← List.take_append_drop (beaconData md5 nodes).length data, hplain]
      _ = _ := drop_beaconData _
  have hnodes : ((List.range nodes.length).map fun i =>
      NodeInfo.deserialize (((data.drop sizeofBeaconData).drop (sizeofBeaconNodeInfo * i)).take
        sizeofBeaconNodeInfo)) = nodes := by
    refine List.ext_getElem (by simp) fun i _ hi => ?_
    rw [List.getElem_map, List.getElem_range, hrest,
      take_drop_flatMap length_serialize (List.getElem?_eq_getElem hi), deserialize_serialize]
  rw [decryptBeaconData, if_neg (by simp [nintendoOUI]), if_neg (by simp [nintendoOUI])]
  have hdrop₀ : (nintendoOUI ++ [encryptedData0] ++ payload₀).drop 4 = payload₀ := rfl
  have hdrop₁ : (nintendoOUI ++ [ouiType] ++ payload₁).drop 4 = payload₁ := rfl
  simp only [hdrop₀, hdrop₁, hdata, hmax, hnodes]
  rw [if_neg (by rw [← @length_beaconData md5]; omega)]

/-- A beacon of not more than twelve nodes is made, and gives the nodes back whatever lies behind
the encrypted data. -/
theorem decryptBeaconData_generated (hmax : info.maxNodes.toNat = nodes.length)
    (hlow : 2 ≤ nodes.length) (hhigh : nodes.length ≤ 12) (behind₀ behind₁ : Nat → UInt8) :
    ∃ second, generateSecondEncryptedDataTag keystream md5 info nodes behind₁ = some second ∧
      decryptBeaconData keystream info
        (fedBuffer encryptedData0 (generateFirstEncryptedDataTag keystream md5 info nodes behind₀))
        (fedBuffer encryptedData1 second) = some nodes := by
  have hlength := @length_generatedEncryptedData keystream md5 info nodes
  by_cases hcutoff : nodes.length * sizeofNodeInfo ≤ encryptedDataSizeCutoff
  · refine ⟨[], by rw [generateSecondEncryptedDataTag, if_pos hcutoff],
      decryptBeaconData_of_take hmax (take_payloads fun i hfirst hi => ?_)⟩
    -- the first tag has room for all of the data
    simp only [hlength, firstPayloadSize, sizeofBeaconData, sizeofBeaconNodeInfo, sizeofNodeInfo,
      encryptedDataSizeCutoff] at hcutoff hfirst hi
    omega
  · have hsize : ¬ 255 < 4 + secondPayloadSize nodes := by
      simp only [secondPayloadSize, sizeofNodeInfo, encryptedDataSizeCutoff]
      omega
    have hfull : firstPayloadSize nodes = encryptedDataSizeCutoff := min_eq_left (not_le.mp hcutoff).le
    refine ⟨_, by rw [generateSecondEncryptedDataTag, if_neg hcutoff, if_neg hsize], ?_⟩
    rw [generateFirstEncryptedDataTag, fedBuffer_dataTag, fedBuffer_dataTag]
    refine decryptBeaconData_of_take hmax (take_payloads fun i hfirst hi => ?_)
    have hroom : i - encryptedDataSizeCutoff < secondPayloadSize nodes := by
      simp only [hlength, secondPayloadSize, sizeofBeaconData, sizeofBeaconNodeInfo, sizeofNodeInfo,
        encryptedDataSizeCutoff] at hcutoff hi ⊢
      omega
    rw [hfull] at hfirst ⊢
    have hi' : encryptedDataSizeCutoff + (i - encryptedDataSizeCutoff) = i := Nat.add_sub_of_le hfirst
    have hinside : encryptedDataSizeCutoff + (i - encryptedDataSizeCutoff) <
        (generatedEncryptedData keystream md5 info nodes).length := hi'.symm ▸ hi
    rw [getElem?_copied hroom hinside, hi']

/-- The tags of a network are larger than its encrypted data. -/
theorem not_roundTrips (hlow : 2 ≤ nodes.length) : ¬ RoundTrips keystream md5 info nodes := by
  intro h
  have hlength := @length_generatedEncryptedData keystream md5 info nodes
  have hfirst := h.first
  have hsecond := h.second
  simp only [hlength, firstPayloadSize, secondPayloadSize, sizeofBeaconData, sizeofBeaconNodeInfo,
    sizeofNodeInfo, encryptedDataSizeCutoff] at hfirst hsecond
  omega

end RoundTrip

section Example

/-- A network for two nodes. -/
def twoNodes : NetworkInfo := ⟨fun _ => 0, 0, 0, 0, 2⟩

/-- The nodes before anybody joins. -/
def emptyNodes : List NodeInfo := List.replicate 2 ⟨0, fun _ => 0, 0⟩

theorem decryptBeaconData_twoNodes :
    ∃ second, generateSecondEncryptedDataTag (fun _ _ => 0) (fun _ _ => 0) twoNodes emptyNodes
        (fun _ => 0) = some second ∧
      decryptBeaconData (fun _ _ => 0) twoNodes
        (fedBuffer encryptedData0
          (generateFirstEncryptedDataTag (fun _ _ => 0) (fun _ _ => 0) twoNodes emptyNodes fun _ => 0))
        (fedBuffer encryptedData1 second) = some emptyNodes :=
  decryptBeaconData_generated rfl (by decide) (by decide) _ _

theorem not_roundTrips_twoNodes :
    ¬ RoundTrips (fun _ _ => 0) (fun _ _ => 0) twoNodes emptyNodes :=
  not_roundTrips (by decide)

theorem generateBeaconFrame_readsBehind :
    generateBeaconFrame (fun _ _ => 0) (fun _ _ => 0) twoNodes emptyNodes [] (fun _ => 0) (fun _ => 0) ≠
      generateBeaconFrame (fun _ _ => 0) (fun _ _ => 0) twoNodes emptyNodes [] (fun _ => 1)
        (fun _ => 0) := by
  decide

end Example

end Cytrus.Nwm
