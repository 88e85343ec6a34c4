import Mathlib
import Cytrus.Support.Ring
import Cytrus.Support.PackedTable

/-!
# The receive buffer of ir:USER

The buffer lies in memory that is shared with the guest: a ring of packet infos,
and behind it a ring of the bytes of the packets. A packet is put behind the last
one, and packets are released from the front.

## Main results

* `stored_run`: the buffer is a bounded queue of packets
-/

namespace Cytrus.Ir

open Support

structure BufferInfo where
  beginIndex : UInt32 := 0
  endIndex : UInt32 := 0
  packetCount : UInt32 := 0
  unknown : UInt32 := 0

structure PacketInfo where
  offset : UInt32
  size : UInt32

def sizeofPacketInfo : Nat := 8

/-- `BufferManager`, with the shared memory that it writes. -/
structure BufferManager where
  info : BufferInfo := {}
  sharedMemory : Nat → UInt8
  infoOffset : UInt32
  bufferOffset : UInt32
  maxPacketCount : UInt32
  maxDataSize : UInt32

/-! ## Bytes of the shared memory -/

/-- `memcpy` into the shared memory. -/
def copyTo (memory : Nat → UInt8) (p : Nat) (bytes : List UInt8) (i : Nat) : UInt8 :=
  if p ≤ i ∧ i < p + bytes.length then bytes.getD (i - p) 0 else memory i

/-- `memcpy` out of it. -/
def bytesAt (memory : Nat → UInt8) (p size : Nat) : List UInt8 := (List.range size).map fun k => memory (p + k)

def BufferInfo.bytes (info : BufferInfo) : List UInt8 :=
  toBytes 4 info.beginIndex.toNat ++ toBytes 4 info.endIndex.toNat ++ toBytes 4 info.packetCount.toNat ++
    toBytes 4 info.unknown.toNat

def PacketInfo.bytes (info : PacketInfo) : List UInt8 :=
  toBytes 4 info.offset.toNat ++ toBytes 4 info.size.toNat

def PacketInfo.ofBytes (bytes : List UInt8) : PacketInfo where
  offset := UInt32.ofNat (Support.ofBytes (bytes.take 4))
  size := UInt32.ofNat (Support.ofBytes ((bytes.drop 4).take 4))

namespace BufferManager

variable (m : BufferManager)

/-- `SharedMemory::GetPointer`, whose argument is 32 bits wide. -/
def getPointer (offset : Nat) : Nat := (UInt32.ofNat offset).toNat

def getPacketInfoPointer (index : UInt32) : Nat :=
  getPointer (m.bufferOffset.toNat + sizeofPacketInfo * index.toNat)

def setPacketInfo (index : UInt32) (packetInfo : PacketInfo) : BufferManager :=
  { m with sharedMemory := copyTo m.sharedMemory (m.getPacketInfoPointer index) packetInfo.bytes }

def getPacketInfo (index : UInt32) : PacketInfo :=
  .ofBytes (bytesAt m.sharedMemory (m.getPacketInfoPointer index) sizeofPacketInfo)

def getDataBufferPointer (offset : UInt32) : Nat :=
  getPointer (m.bufferOffset.toNat + sizeofPacketInfo * m.maxPacketCount.toNat + offset.toNat)

def updateBufferInfo : BufferManager :=
  if m.infoOffset = 0 then m
  else { m with sharedMemory := copyTo m.sharedMemory (getPointer m.infoOffset.toNat) m.info.bytes }

def construct (sharedMemory : Nat → UInt8) (infoOffset bufferOffset maxPacketCount bufferSize : UInt32) :
    BufferManager :=
  updateBufferInfo {
    sharedMemory, infoOffset, bufferOffset, maxPacketCount
    -- computed in 64 bits, and cut to 32
    maxDataSize := bufferSize - UInt32.ofNat (sizeofPacketInfo * maxPacketCount.toNat) }

/-- Where `Put` writes a packet of a size, if it has room. -/
def freeOffset (size : Nat) : Option UInt32 :=
  if m.info.packetCount = m.maxPacketCount then none
  else if m.info.packetCount = 0 then if m.maxDataSize.toNat < size then none else some 0
  else
    let lastIndex := (m.info.endIndex + m.maxPacketCount - 1) % m.maxPacketCount
    let first := m.getPacketInfo m.info.beginIndex
    let last := m.getPacketInfo lastIndex
    let writeOffset := (last.offset + last.size) % m.maxDataSize
    let freeSpace := (first.offset + m.maxDataSize - writeOffset) % m.maxDataSize
    if freeSpace.toNat < size then none else some writeOffset

/-- The loop of `Put` over the bytes of a packet, from byte `i` on. -/
def writeData (writeOffset : UInt32) : Nat → List UInt8 → BufferManager → BufferManager
  | _, [], m => m
  | i, x :: rest, m =>
      let p := m.getDataBufferPointer (UInt32.ofNat ((writeOffset.toNat + i) % m.maxDataSize.toNat))
      writeData writeOffset (i + 1) rest { m with sharedMemory := Function.update m.sharedMemory p x }

/-- What `Put` does with a packet that it has room for. -/
def store (writeOffset : UInt32) (packet : List UInt8) : BufferManager :=
  let m := m.setPacketInfo m.info.endIndex ⟨writeOffset, UInt32.ofNat packet.length⟩
  let m := writeData writeOffset 0 packet m
  updateBufferInfo { m with info := { m.info with
    endIndex := (m.info.endIndex + 1) % m.maxPacketCount
    packetCount := m.info.packetCount + 1 } }

def put (packet : List UInt8) : Bool × BufferManager :=
  match m.freeOffset packet.length with
  | none => (false, m)
  | some writeOffset => (true, m.store writeOffset packet)

def release (count : UInt32) : Bool × BufferManager :=
  if m.info.packetCount < count then (false, m)
  else (true, updateBufferInfo { m with info := { m.info with
    packetCount := m.info.packetCount - count
    beginIndex := (m.info.beginIndex + count) % m.maxPacketCount } })

/-- The packet of an entry, as its reader finds it. -/
def packetAt (i : Nat) : List UInt8 :=
  let packetInfo := m.getPacketInfo (UInt32.ofNat i)
  Ring.contents (fun k => m.sharedMemory (m.getDataBufferPointer (UInt32.ofNat k))) m.maxDataSize.toNat
    packetInfo.offset.toNat packetInfo.size.toNat

/-- The packets of the buffer, from the first one on. -/
def stored : List (List UInt8) :=
  Ring.contents m.packetAt m.maxPacketCount.toNat m.info.beginIndex.toNat m.info.packetCount.toNat

end BufferManager

/-! ## Bounded queues -/

/-- The calls of the buffer. -/
inductive Call
  | put (packet : List UInt8)
  | release (count : UInt32)

/-- A call of the buffer, with what it returns. -/
def BufferManager.call (m : BufferManager) : Call → Bool × BufferManager
  | .put packet => m.put packet
  | .release count => m.release count

/-- Calls, with what each of them returns. -/
def BufferManager.run (m : BufferManager) : List Call → List Bool × BufferManager
  | [] => ([], m)
  | c :: rest => let r := (m.call c).2.run rest; ((m.call c).1 :: r.1, r.2)

/-- A call of a queue with room for so many packets, and for so many bytes of them. -/
def Call.onQueue (maxPackets maxBytes : Nat) (packets : List (List UInt8)) :
    Call → Bool × List (List UInt8)
  | .put packet =>
      if packets.length = maxPackets ∨ maxBytes - packets.flatten.length < packet.length then (false, packets)
      else (true, packets ++ [packet])
  | .release count =>
      if packets.length < count.toNat then (false, packets) else (true, packets.drop count.toNat)

/-- Calls of such a queue. -/
def queueRun (maxPackets maxBytes : Nat) (packets : List (List UInt8)) :
    List Call → List Bool × List (List UInt8)
  | [] => ([], packets)
  | c :: rest =>
      let r := queueRun maxPackets maxBytes (c.onQueue maxPackets maxBytes packets).2 rest
      ((c.onQueue maxPackets maxBytes packets).1 :: r.1, r.2)

/-! ## What the rings hold -/

section Memory

variable {memory : Nat → UInt8} {p q n : Nat} {bytes : List UInt8}

theorem bytesAt_copyTo : bytesAt (copyTo memory p bytes) p bytes.length = bytes := by
  refine List.ext_getElem (by simp [bytesAt]) fun k _ hk => ?_
  simp [bytesAt, copyTo, hk]

theorem copyTo_of_outside {i : Nat} (h : i < p ∨ p + bytes.length ≤ i) : copyTo memory p bytes i = memory i :=
  if_neg (by omega)

theorem bytesAt_congr {memory' : Nat → UInt8} (h : ∀ k < n, memory (p + k) = memory' (p + k)) :
    bytesAt memory p n = bytesAt memory' p n :=
  List.map_congr_left fun k hk => h k (List.mem_range.mp hk)

theorem PacketInfo.length_bytes (info : PacketInfo) : info.bytes.length = sizeofPacketInfo := by
  simp [PacketInfo.bytes, sizeofPacketInfo]

theorem BufferInfo.length_bytes (info : BufferInfo) : info.bytes.length = 16 := by
  simp [BufferInfo.bytes]

theorem ofNat_ofBytes_toBytes (x : UInt32) : UInt32.ofNat (ofBytes (toBytes 4 x.toNat)) = x := by
  have hlt : x.toNat < 256 ^ 4 := x.toNat_lt
  rw [ofBytes_toBytes, Nat.mod_eq_of_lt hlt, UInt32.ofNat_toNat]

theorem PacketInfo.ofBytes_bytes (info : PacketInfo) : PacketInfo.ofBytes info.bytes = info := by
  have hlength (x : UInt32) : (toBytes 4 x.toNat).length = 4 := length_toBytes ..
  rw [PacketInfo.ofBytes, PacketInfo.bytes, List.take_left' (hlength _), List.drop_left' (hlength _),
    List.take_of_length_le (hlength _).le, ofNat_ofBytes_toBytes, ofNat_ofBytes_toBytes]

/-- The ring of packet infos, whose first entry is at `base`. -/
def infosIn (memory : Nat → UInt8) (base i : Nat) : PacketInfo :=
  .ofBytes (bytesAt memory (base + sizeofPacketInfo * i) sizeofPacketInfo)

/-- The ring of bytes behind `base`. -/
def dataIn (memory : Nat → UInt8) (base i : Nat) : UInt8 := memory (base + i)

theorem infosIn_copyTo (base j : Nat) (info : PacketInfo) :
    infosIn (copyTo memory (base + sizeofPacketInfo * j) info.bytes) base =
      Function.update (infosIn memory base) j info := by
  funext i
  rcases eq_or_ne i j with rfl | hne
  · rw [Function.update_self, infosIn, ← info.length_bytes, bytesAt_copyTo, PacketInfo.ofBytes_bytes]
  · rw [Function.update_of_ne hne, infosIn]
    refine congrArg PacketInfo.ofBytes (bytesAt_congr fun k hk => copyTo_of_outside ?_)
    rw [PacketInfo.length_bytes]
    rw [sizeofPacketInfo] at *
    omega

theorem infosIn_congr {memory' : Nat → UInt8} {base i count : Nat} (hi : i < count)
    (h : ∀ a, base ≤ a → a < base + sizeofPacketInfo * count → memory a = memory' a) :
    infosIn memory base i = infosIn memory' base i := by
  refine congrArg PacketInfo.ofBytes (bytesAt_congr fun k hk => h _ (by omega) ?_)
  rw [sizeofPacketInfo] at *
  omega

theorem dataIn_update (base j : Nat) (x : UInt8) :
    dataIn (Function.update memory (base + j) x) base = Function.update (dataIn memory base) j x := by
  funext i
  rcases eq_or_ne i j with rfl | hne
  · rw [dataIn, Function.update_self, Function.update_self]
  · rw [dataIn, Function.update_of_ne hne, Function.update_of_ne (by omega), dataIn]

end Memory

/-- The entries of packets that lie behind each other, from `start` on. -/
def layout (cap : Nat) : Nat → List (List UInt8) → List PacketInfo
  | _, [] => []
  | start, p :: rest =>
      ⟨UInt32.ofNat (start % cap), UInt32.ofNat p.length⟩ :: layout cap (start + p.length) rest

section Layout

variable {cap start : Nat} {packets packets' : List (List UInt8)}

@[simp] theorem length_layout : (layout cap start packets).length = packets.length := by
  induction packets generalizing start with
  | nil => rfl
  | cons p rest ih => rw [layout, List.length_cons, ih, List.length_cons]

theorem layout_append : layout cap start (packets ++ packets') =
    layout cap start packets ++ layout cap (start + packets.flatten.length) packets' := by
  induction packets generalizing start with
  | nil => rfl
  | cons p rest ih =>
      rw [List.cons_append, layout, ih, layout, List.cons_append, List.flatten_cons, List.length_append,
        add_assoc]

/-- A layout depends on where it starts in the ring only. -/
theorem layout_mod : layout cap (start % cap) packets = layout cap start packets := by
  induction packets generalizing start with
  | nil => rfl
  | cons p rest ih => rw [layout, layout, Nat.mod_mod, ← ih, Nat.mod_add_mod, ih]

end Layout

namespace BufferManager

variable {m m' : BufferManager} {packets : List (List UInt8)} {packet : List UInt8} {start : Nat}

/-- Where the ring of bytes starts. -/
def dataOffset (m : BufferManager) : Nat := m.bufferOffset.toNat + sizeofPacketInfo * m.maxPacketCount.toNat

/-- The rings have room behind the offset of the buffer, and are not where the buffer info is. -/
structure Fits (m : BufferManager) : Prop where
  apart : m.infoOffset = 0 ∨ m.infoOffset.toNat + 16 ≤ m.bufferOffset.toNat ∨
    m.dataOffset + m.maxDataSize.toNat ≤ m.infoOffset.toNat
  rings_le : m.dataOffset + m.maxDataSize.toNat ≤ 2 ^ 32
  data_le : m.maxDataSize.toNat ≤ 2 ^ 31

theorem getPointer_eq {p : Nat} (h : p < 2 ^ 32) : getPointer p = p := by
  rw [getPointer, UInt32.toNat_ofNat', Nat.mod_eq_of_lt h]

theorem Fits.maxPacketCount_le (h : m.Fits) : m.maxPacketCount.toNat ≤ 2 ^ 29 := by
  have hrings := h.rings_le
  rw [dataOffset, sizeofPacketInfo] at hrings
  omega

theorem Fits.getPacketInfoPointer (h : m.Fits) {index : UInt32} (hindex : index.toNat < m.maxPacketCount.toNat) :
    m.getPacketInfoPointer index = m.bufferOffset.toNat + sizeofPacketInfo * index.toNat := by
  have hrings := h.rings_le
  refine getPointer_eq ?_
  rw [dataOffset] at hrings
  rw [sizeofPacketInfo] at *
  omega

theorem Fits.getPacketInfo (h : m.Fits) {index : UInt32} (hindex : index.toNat < m.maxPacketCount.toNat) :
    m.getPacketInfo index = infosIn m.sharedMemory m.bufferOffset.toNat index.toNat := by
  rw [BufferManager.getPacketInfo, h.getPacketInfoPointer hindex, infosIn]

theorem Fits.getDataBufferPointer (h : m.Fits) {offset : UInt32} (hoffset : offset.toNat < m.maxDataSize.toNat) :
    m.getDataBufferPointer offset = m.dataOffset + offset.toNat :=
  getPointer_eq (lt_of_lt_of_le (Nat.add_lt_add_left hoffset _) h.rings_le)

/-! ### Writing -/

/-- Only the memory changes, and outside of the ring of bytes it does not. -/
theorem Fits.writeData_frame (h : m.Fits) (hsize : 0 < m.maxDataSize.toNat) (writeOffset : UInt32) (i : Nat)
    (bytes : List UInt8) :
    ∃ memory, writeData writeOffset i bytes m = { m with sharedMemory := memory } ∧
      dataIn memory m.dataOffset =
        Ring.write (dataIn m.sharedMemory m.dataOffset) m.maxDataSize.toNat (writeOffset.toNat + i) bytes ∧
      ∀ a < m.dataOffset, memory a = m.sharedMemory a := by
  induction bytes generalizing m i with
  | nil => exact ⟨_, rfl, rfl, fun _ _ => rfl⟩
  | cons x rest ih =>
      have hlt : (writeOffset.toNat + i) % m.maxDataSize.toNat < m.maxDataSize.toNat := Nat.mod_lt _ hsize
      have hoffset : (UInt32.ofNat ((writeOffset.toNat + i) % m.maxDataSize.toNat)).toNat =
          (writeOffset.toNat + i) % m.maxDataSize.toNat := by
        rw [UInt32.toNat_ofNat', Nat.mod_eq_of_lt (hlt.trans m.maxDataSize.toNat_lt)]
      have hpointer : m.getDataBufferPointer
          (UInt32.ofNat ((writeOffset.toNat + i) % m.maxDataSize.toNat)) =
          m.dataOffset + (writeOffset.toNat + i) % m.maxDataSize.toNat := by
        rw [h.getDataBufferPointer (by rwa [hoffset]), hoffset]
      rw [writeData, hpointer]
      let p := m.dataOffset + (writeOffset.toNat + i) % m.maxDataSize.toNat
      have hfits : Fits { m with sharedMemory := Function.update m.sharedMemory p x } :=
        ⟨h.apart, h.rings_le, h.data_le⟩
      obtain ⟨memory, heq, hdata, hframe⟩ := ih hfits hsize (i + 1)
      refine ⟨memory, heq, ?_, fun a ha => ?_⟩
      · rw [Ring.write, ← dataIn_update, add_assoc]
        exact hdata
      · have hbelow : a < p := lt_of_lt_of_le ha (Nat.le_add_right _ _)
        exact (hframe a ha).trans (Function.update_of_ne hbelow.ne ..)

theorem Fits.updateBufferInfo_frame (h : m.Fits) :
    ∃ memory, m.updateBufferInfo = { m with sharedMemory := memory } ∧
      ∀ a, m.bufferOffset.toNat ≤ a → a < m.dataOffset + m.maxDataSize.toNat → memory a = m.sharedMemory a := by
  rw [updateBufferInfo]
  split
  · exact ⟨_, rfl, fun _ _ _ => rfl⟩
  · next hinfo =>
    refine ⟨_, rfl, fun a hlow hhigh => copyTo_of_outside ?_⟩
    rw [getPointer_eq m.infoOffset.toNat_lt, BufferInfo.length_bytes]
    rcases h.apart with hzero | hbelow | habove
    · exact absurd hzero hinfo
    · exact .inr (hbelow.trans hlow)
    · exact .inl (lt_of_lt_of_le hhigh habove)

/-! ### The queue that a buffer holds -/

/-- The buffer holds packets whose bytes begin at `start`. -/
structure Holds (m : BufferManager) (packets : List (List UInt8)) (start : Nat) : Prop where
  begin_lt : m.info.beginIndex.toNat < m.maxPacketCount.toNat
  count_eq : m.info.packetCount.toNat = packets.length
  count_le : packets.length ≤ m.maxPacketCount.toNat
  end_eq : m.info.endIndex.toNat = (m.info.beginIndex.toNat + packets.length) % m.maxPacketCount.toNat
  start_lt : start < m.maxDataSize.toNat
  infos : Ring.contents (infosIn m.sharedMemory m.bufferOffset.toNat) m.maxPacketCount.toNat
    m.info.beginIndex.toNat packets.length = layout m.maxDataSize.toNat start packets
  size_le : packets.flatten.length ≤ m.maxDataSize.toNat
  data : Ring.contents (dataIn m.sharedMemory m.dataOffset) m.maxDataSize.toNat start
    packets.flatten.length = packets.flatten
  nonempty : ∀ p ∈ packets, p ≠ []

/-- What a buffer holds depends on the memory of the rings only. -/
theorem Holds.congr (h : Holds m packets start) {memory : Nat → UInt8}
    (hmemory : ∀ a, m.bufferOffset.toNat ≤ a → a < m.dataOffset + m.maxDataSize.toNat →
      memory a = m.sharedMemory a) :
    Holds { m with sharedMemory := memory } packets start := by
  have hcount : 0 < m.maxPacketCount.toNat := Nat.zero_lt_of_lt h.begin_lt
  have hsize : 0 < m.maxDataSize.toNat := Nat.zero_lt_of_lt h.start_lt
  refine { h with infos := ?_, data := ?_ }
  · refine (Ring.contents_congr fun k _ => ?_).trans h.infos
    exact infosIn_congr (Nat.mod_lt _ hcount) fun a hlow hhigh =>
      hmemory a hlow (lt_of_lt_of_le hhigh (Nat.le_add_right _ _))
  · have hdata (k : Nat) : dataIn memory m.dataOffset ((start + k) % m.maxDataSize.toNat) =
        dataIn m.sharedMemory m.dataOffset ((start + k) % m.maxDataSize.toNat) :=
      hmemory _ ((Nat.le_add_right _ _).trans (Nat.le_add_right _ _))
        (Nat.add_lt_add_left (Nat.mod_lt _ hsize) _)
    exact (Ring.contents_congr fun k _ => hdata k).trans h.data

theorem map_layout {slots : Nat → UInt8} {cap : Nat} (hcap : cap ≤ 2 ^ 31)
    (hsize : packets.flatten.length ≤ cap) (hstart : 0 < cap)
    (hdata : Ring.contents slots cap start packets.flatten.length = packets.flatten) :
    (layout cap start packets).map (fun packetInfo =>
      Ring.contents slots cap packetInfo.offset.toNat packetInfo.size.toNat) = packets := by
  induction packets generalizing start with
  | nil => rfl
  | cons p rest ih =>
      rw [List.flatten_cons, List.length_append, Ring.contents_add] at hdata
      rw [List.flatten_cons, List.length_append] at hsize
      obtain ⟨hfirst, hrest⟩ := List.append_inj hdata Ring.length_contents
      have hoffset : (UInt32.ofNat (start % cap)).toNat = start % cap := by
        rw [UInt32.toNat_ofNat', Nat.mod_eq_of_lt]
        exact (Nat.mod_lt _ hstart).trans (by omega)
      have hlength : (UInt32.ofNat p.length).toNat = p.length := by
        rw [UInt32.toNat_ofNat', Nat.mod_eq_of_lt (by omega)]
      rw [layout, List.map_cons, ih (by omega) hrest, hoffset, hlength, Ring.contents_mod, hfirst]

theorem Holds.stored (h : Holds m packets start) (hfits : m.Fits) : m.stored = packets := by
  have hsize : 0 < m.maxDataSize.toNat := Nat.zero_lt_of_lt h.start_lt
  have hcount : 0 < m.maxPacketCount.toNat := Nat.zero_lt_of_lt h.begin_lt
  have hpacket {i : Nat} (hi : i < m.maxPacketCount.toNat) : m.packetAt i =
      Ring.contents (dataIn m.sharedMemory m.dataOffset) m.maxDataSize.toNat
        (infosIn m.sharedMemory m.bufferOffset.toNat i).offset.toNat
        (infosIn m.sharedMemory m.bufferOffset.toNat i).size.toNat := by
    have hindex : (UInt32.ofNat i).toNat = i := by
      rw [UInt32.toNat_ofNat', Nat.mod_eq_of_lt (hi.trans m.maxPacketCount.toNat_lt)]
    rw [packetAt, hfits.getPacketInfo (by rwa [hindex]), hindex]
    refine Ring.contents_congr fun k _ => ?_
    have hlt := Nat.mod_lt ((infosIn m.sharedMemory m.bufferOffset.toNat i).offset.toNat + k) hsize
    have hoffset : (UInt32.ofNat (((infosIn m.sharedMemory m.bufferOffset.toNat i).offset.toNat + k) %
        m.maxDataSize.toNat)).toNat =
        ((infosIn m.sharedMemory m.bufferOffset.toNat i).offset.toNat + k) % m.maxDataSize.toNat := by
      rw [UInt32.toNat_ofNat', Nat.mod_eq_of_lt (hlt.trans m.maxDataSize.toNat_lt)]
    rw [hfits.getDataBufferPointer (by rwa [hoffset]), hoffset, dataIn]
  calc
    m.stored
      = (Ring.contents (infosIn m.sharedMemory m.bufferOffset.toNat) m.maxPacketCount.toNat
          m.info.beginIndex.toNat packets.length).map (fun packetInfo =>
            Ring.contents (dataIn m.sharedMemory m.dataOffset) m.maxDataSize.toNat
              packetInfo.offset.toNat packetInfo.size.toNat) := by
        rw [BufferManager.stored, h.count_eq, Ring.contents, Ring.contents, List.map_map]
        exact List.map_congr_left fun k _ => hpacket (Nat.mod_lt _ hcount)
    _ = packets := by
        rw [h.infos]
        exact map_layout hfits.data_le h.size_le hsize h.data

theorem Holds.nil (h : Holds m [] start) : Holds m [] 0 :=
  { h with start_lt := Nat.zero_lt_of_lt h.start_lt, infos := rfl, data := rfl }

theorem free_eq {cap used : Nat} (hstart : start < cap) (hpos : 0 < used) (hused : used ≤ cap) :
    (start + cap - (start + used) % cap) % cap = cap - used := by
  rcases Nat.lt_or_ge (start + used) cap with hlt | hge
  · rw [Nat.mod_eq_of_lt hlt, Nat.mod_eq_of_lt (by omega)]
    omega
  · have hmod : (start + used) % cap = start + used - cap := by
      rw [Nat.mod_eq_sub_mod hge, Nat.mod_eq_of_lt (by omega)]
    have hsum : start + cap - (start + used - cap) = cap - used + cap := by omega
    rw [hmod, hsum, Nat.add_mod_right, Nat.mod_eq_of_lt (by omega)]

theorem Holds.first {rest : List (List UInt8)} (h : Holds m (packet :: rest) start) :
    infosIn m.sharedMemory m.bufferOffset.toNat m.info.beginIndex.toNat =
      ⟨UInt32.ofNat start, UInt32.ofNat packet.length⟩ := by
  have hinfos := h.infos
  rw [List.length_cons, Ring.contents_succ, layout, Nat.mod_eq_of_lt h.begin_lt,
    Nat.mod_eq_of_lt h.start_lt] at hinfos
  exact (List.cons.inj hinfos).1

theorem Holds.last {front : List (List UInt8)} (h : Holds m (front ++ [packet]) start) :
    infosIn m.sharedMemory m.bufferOffset.toNat
        ((m.info.beginIndex.toNat + front.length) % m.maxPacketCount.toNat) =
      ⟨UInt32.ofNat ((start + front.flatten.length) % m.maxDataSize.toNat), UInt32.ofNat packet.length⟩ := by
  have hinfos := h.infos
  rw [List.length_append, List.length_singleton, Ring.contents_concat, layout_append] at hinfos
  have hlength : (layout m.maxDataSize.toNat start front).length = front.length := length_layout
  exact (List.cons.inj (List.append_inj hinfos (Ring.length_contents.trans hlength.symm)).2).1

theorem Holds.lastIndex {front : List (List UInt8)} (h : Holds m (front ++ [packet]) start) (hfits : m.Fits) :
    ((m.info.endIndex + m.maxPacketCount - 1) % m.maxPacketCount).toNat =
      (m.info.beginIndex.toNat + front.length) % m.maxPacketCount.toNat := by
  have hcount := hfits.maxPacketCount_le
  have hpos : 0 < m.maxPacketCount.toNat := Nat.zero_lt_of_lt h.begin_lt
  have hend : m.info.endIndex.toNat < m.maxPacketCount.toNat := h.end_eq ▸ Nat.mod_lt _ hpos
  have hone : (1 : UInt32).toNat = 1 := rfl
  have hsum : (m.info.endIndex + m.maxPacketCount).toNat = m.info.endIndex.toNat + m.maxPacketCount.toNat := by
    rw [UInt32.toNat_add, Nat.mod_eq_of_lt (by omega)]
  have hle : (1 : UInt32) ≤ m.info.endIndex + m.maxPacketCount := by
    rw [UInt32.le_iff_toNat_le, hsum, hone]
    omega
  have hshift : m.info.beginIndex.toNat + (front.length + 1) + (m.maxPacketCount.toNat - 1) =
      m.info.beginIndex.toNat + front.length + m.maxPacketCount.toNat := by
    omega
  rw [UInt32.toNat_mod, UInt32.toNat_sub_of_le _ _ hle, hsum, hone, h.end_eq, List.length_append,
    List.length_singleton, Nat.add_sub_assoc hpos, Nat.mod_add_mod, hshift, Nat.add_mod_right]

theorem toNat_ofNat_of_lt {n : Nat} (h : n < 2 ^ 32) : (UInt32.ofNat n).toNat = n := by
  rw [UInt32.toNat_ofNat', Nat.mod_eq_of_lt h]

/-- `Put` finds no room only if there are as many packets as there may be, or too few free bytes. -/
theorem Holds.freeOffset (h : Holds m packets start) (hfits : m.Fits) (size : Nat) :
    ∃ start', Holds m packets start' ∧ m.freeOffset size =
      if packets.length = m.maxPacketCount.toNat ∨ m.maxDataSize.toNat - packets.flatten.length < size then none
      else some (UInt32.ofNat ((start' + packets.flatten.length) % m.maxDataSize.toNat)) := by
  have hfull : m.info.packetCount = m.maxPacketCount ↔ packets.length = m.maxPacketCount.toNat := by
    rw [← UInt32.toNat_inj, h.count_eq]
  have hzero : m.info.packetCount = 0 ↔ packets = [] := by
    rw [← UInt32.toNat_inj, h.count_eq]
    exact List.length_eq_zero_iff
  rw [BufferManager.freeOffset]
  by_cases hcount : packets.length = m.maxPacketCount.toNat
  · exact ⟨start, h, by rw [if_pos (hfull.mpr hcount), if_pos (.inl hcount)]⟩
  simp only [hfull, hcount, false_or, if_false, hzero]
  rcases packets.eq_nil_or_concat with rfl | ⟨front, q, rfl⟩
  · exact ⟨0, h.nil, by simp⟩
  · refine ⟨start, h, ?_⟩
    obtain ⟨p, rest, hcons⟩ := List.exists_cons_of_ne_nil (List.concat_ne_nil q front)
    rw [List.concat_eq_append] at *
    have hdata := hfits.data_le
    have hstart := h.start_lt
    have hsize := h.size_le
    have hlast := h.last
    have hused : (front ++ [q]).flatten.length = front.flatten.length + q.length := by simp
    have hpos : 0 < q.length := List.length_pos_iff.mpr (h.nonempty q (by simp))
    have hoffset : (start + front.flatten.length) % m.maxDataSize.toNat < m.maxDataSize.toNat :=
      Nat.mod_lt _ (Nat.zero_lt_of_lt hstart)
    have hfirst := (hcons ▸ h).first
    rw [if_neg (by simp), hfits.getPacketInfo h.begin_lt, hfirst, hfits.getPacketInfo
      (by rw [h.lastIndex hfits]; exact Nat.mod_lt _ (Nat.zero_lt_of_lt h.begin_lt)), h.lastIndex hfits, hlast]
    set writeOffset := (UInt32.ofNat ((start + front.flatten.length) % m.maxDataSize.toNat) +
      UInt32.ofNat q.length) % m.maxDataSize with hwriteOffset
    have hwrite : writeOffset.toNat =
        (start + (front ++ [q]).flatten.length) % m.maxDataSize.toNat := by
      have hsum : (start + front.flatten.length) % m.maxDataSize.toNat + q.length < 2 ^ 32 := by omega
      rw [hwriteOffset, UInt32.toNat_mod, UInt32.toNat_add, toNat_ofNat_of_lt (by omega),
        toNat_ofNat_of_lt (by omega), Nat.mod_eq_of_lt hsum, Nat.mod_add_mod, hused, add_assoc]
    have hlt : writeOffset.toNat < m.maxDataSize.toNat :=
      hwrite ▸ Nat.mod_lt _ (Nat.zero_lt_of_lt hstart)
    have hsum : (UInt32.ofNat start + m.maxDataSize).toNat = start + m.maxDataSize.toNat := by
      rw [UInt32.toNat_add, toNat_ofNat_of_lt (by omega), Nat.mod_eq_of_lt (by omega)]
    have hle : writeOffset ≤ UInt32.ofNat start + m.maxDataSize := by
      rw [UInt32.le_iff_toNat_le, hsum]
      omega
    have hfree : ((UInt32.ofNat start + m.maxDataSize - writeOffset) % m.maxDataSize).toNat =
        m.maxDataSize.toNat - (front ++ [q]).flatten.length := by
      rw [UInt32.toNat_mod, UInt32.toNat_sub_of_le _ _ hle, hsum, hwrite]
      exact free_eq hstart (by omega) hsize
    rw [← hwrite, UInt32.ofNat_toNat]
    dsimp only
    rw [hfree]

/-- The fields that no call changes. -/
def Same (m m' : BufferManager) : Prop :=
  m'.infoOffset = m.infoOffset ∧ m'.bufferOffset = m.bufferOffset ∧ m'.maxPacketCount = m.maxPacketCount ∧
    m'.maxDataSize = m.maxDataSize

theorem same_updateBufferInfo : Same m m.updateBufferInfo := by
  rw [updateBufferInfo]
  split <;> exact ⟨rfl, rfl, rfl, rfl⟩

theorem Fits.of_same (h : m.Fits) (hsame : Same m m') : m'.Fits := by
  obtain ⟨hinfo, hbuffer, hcount, hsize⟩ := hsame
  have hoffset : m'.dataOffset = m.dataOffset := by rw [dataOffset, dataOffset, hbuffer, hcount]
  constructor
  · rw [hinfo, hbuffer, hoffset, hsize]
    exact h.apart
  · rw [hoffset, hsize]
    exact h.rings_le
  · rw [hsize]
    exact h.data_le

theorem Holds.updateBufferInfo (h : Holds m packets start) (hfits : m.Fits) :
    Holds m.updateBufferInfo packets start := by
  obtain ⟨memory, heq, hframe⟩ := hfits.updateBufferInfo_frame
  exact heq ▸ h.congr hframe

theorem Holds.append (h : Holds m packets start) (hbound : m.maxPacketCount.toNat ≤ 2 ^ 29) (hne : packet ≠ [])
    (hroom : packets.length < m.maxPacketCount.toNat)
    (hfree : packets.flatten.length + packet.length ≤ m.maxDataSize.toNat) {memory : Nat → UInt8}
    (hinfos : ∀ i < m.maxPacketCount.toNat, infosIn memory m.bufferOffset.toNat i =
      Function.update (infosIn m.sharedMemory m.bufferOffset.toNat) m.info.endIndex.toNat
        ⟨UInt32.ofNat ((start + packets.flatten.length) % m.maxDataSize.toNat),
          UInt32.ofNat packet.length⟩ i)
    (hdata : dataIn memory m.dataOffset = Ring.write (dataIn m.sharedMemory m.dataOffset) m.maxDataSize.toNat
      (start + packets.flatten.length) packet) :
    Holds { m with
      sharedMemory := memory
      info := { m.info with
        endIndex := (m.info.endIndex + 1) % m.maxPacketCount
        packetCount := m.info.packetCount + 1 } } (packets ++ [packet]) start := by
  have hcount : 0 < m.maxPacketCount.toNat := Nat.zero_lt_of_lt h.begin_lt
  have hend : m.info.endIndex.toNat < m.maxPacketCount.toNat := h.end_eq ▸ Nat.mod_lt _ hcount
  have hone : (1 : UInt32).toNat = 1 := rfl
  have hlength : (packets ++ [packet]).length = packets.length + 1 := by simp
  have hflatten : (packets ++ [packet]).flatten.length = packets.flatten.length + packet.length := by simp
  constructor
  · exact h.begin_lt
  · rw [hlength, ← h.count_eq, UInt32.toNat_add, hone, h.count_eq, Nat.mod_eq_of_lt (by omega)]
  · rw [hlength]
    exact hroom
  · have hwrap : m.info.endIndex.toNat + 1 < 2 ^ 32 := by omega
    rw [hlength, UInt32.toNat_mod, UInt32.toNat_add, hone, Nat.mod_eq_of_lt hwrap, h.end_eq, Nat.mod_add_mod,
      add_assoc]
  · exact h.start_lt
  · have hput := @Ring.contents_put _ (infosIn m.sharedMemory m.bufferOffset.toNat) m.maxPacketCount.toNat
      m.info.beginIndex.toNat packets.length
      ⟨UInt32.ofNat ((start + packets.flatten.length) % m.maxDataSize.toNat), UInt32.ofNat packet.length⟩ hroom
    rw [h.infos, ← h.end_eq] at hput
    rw [hlength, layout_append]
    exact (Ring.contents_congr fun k _ => hinfos _ (Nat.mod_lt _ hcount)).trans hput
  · rw [hflatten]
    exact hfree
  · have hbytes : dataIn memory m.dataOffset = Ring.write (dataIn m.sharedMemory m.dataOffset)
        m.maxDataSize.toNat (start + packets.flatten.length) packet := hdata
    have hpacket : packet.length ≤ m.maxDataSize.toNat := by omega
    calc
      Ring.contents (dataIn memory m.dataOffset) m.maxDataSize.toNat start (packets ++ [packet]).flatten.length
        = packets.flatten ++ packet := by
          rw [hflatten, Ring.contents_add, hbytes, Ring.contents_write_behind hfree, h.data,
            Ring.contents_write hpacket]
      _ = (packets ++ [packet]).flatten := by simp
  · intro p hp
    rcases List.mem_append.mp hp with hold | hnew
    · exact h.nonempty p hold
    · exact List.mem_singleton.mp hnew ▸ hne

theorem Holds.store (h : Holds m packets start) (hfits : m.Fits) (hne : packet ≠ [])
    (hroom : packets.length < m.maxPacketCount.toNat)
    (hfree : packets.flatten.length + packet.length ≤ m.maxDataSize.toNat) :
    Holds (m.store (UInt32.ofNat ((start + packets.flatten.length) % m.maxDataSize.toNat)) packet)
        (packets ++ [packet]) start ∧
      Same m (m.store (UInt32.ofNat ((start + packets.flatten.length) % m.maxDataSize.toNat)) packet) := by
  have hsize : 0 < m.maxDataSize.toNat := Nat.zero_lt_of_lt h.start_lt
  have hcount : 0 < m.maxPacketCount.toNat := Nat.zero_lt_of_lt h.begin_lt
  have hbound := hfits.maxPacketCount_le
  have hend : m.info.endIndex.toNat < m.maxPacketCount.toNat := h.end_eq ▸ Nat.mod_lt _ hcount
  set writeOffset := UInt32.ofNat ((start + packets.flatten.length) % m.maxDataSize.toNat) with hw
  have hwrite : writeOffset.toNat = (start + packets.flatten.length) % m.maxDataSize.toNat :=
    toNat_ofNat_of_lt ((Nat.mod_lt _ hsize).trans m.maxDataSize.toNat_lt)
  -- the entry of the packet
  set m' := m.setPacketInfo m.info.endIndex ⟨writeOffset, UInt32.ofNat packet.length⟩ with hm'
  have hfits' : m'.Fits := hfits.of_same ⟨rfl, rfl, rfl, rfl⟩
  have hinfos : infosIn m'.sharedMemory m.bufferOffset.toNat =
      Function.update (infosIn m.sharedMemory m.bufferOffset.toNat) m.info.endIndex.toNat
        ⟨writeOffset, UInt32.ofNat packet.length⟩ := by
    rw [hm', setPacketInfo, hfits.getPacketInfoPointer hend]
    exact infosIn_copyTo ..
  have hdata : dataIn m'.sharedMemory m.dataOffset = dataIn m.sharedMemory m.dataOffset := by
    funext i
    refine copyTo_of_outside (.inr ?_)
    rw [hfits.getPacketInfoPointer hend, PacketInfo.length_bytes, dataOffset]
    rw [sizeofPacketInfo]
    omega
  -- its bytes
  obtain ⟨memory, heq, hwritten, hframe⟩ := hfits'.writeData_frame hsize writeOffset 0 packet
  have hheld : Holds { m with
      sharedMemory := memory
      info := { m.info with
        endIndex := (m.info.endIndex + 1) % m.maxPacketCount
        packetCount := m.info.packetCount + 1 } } (packets ++ [packet]) start := by
    refine h.append hbound hne hroom hfree (fun i hi => ?_) ?_
    · rw [← hw, ← hinfos]
      exact infosIn_congr hi fun a _ hhigh => hframe a hhigh
    · rw [← Ring.write_mod, ← hwrite, ← hdata]
      exact hwritten
  have hstore : m.store writeOffset packet = BufferManager.updateBufferInfo { m with
      sharedMemory := memory
      info := { m.info with
        endIndex := (m.info.endIndex + 1) % m.maxPacketCount
        packetCount := m.info.packetCount + 1 } } := by
    rw [BufferManager.store]
    dsimp only
    rw [← hm', heq]
    rfl
  rw [hstore]
  exact ⟨hheld.updateBufferInfo (hfits.of_same ⟨rfl, rfl, rfl, rfl⟩), same_updateBufferInfo⟩

theorem Holds.put (h : Holds m packets start) (hfits : m.Fits) (hne : packet ≠ []) :
    (m.put packet).1 =
        ((Call.put packet).onQueue m.maxPacketCount.toNat m.maxDataSize.toNat packets).1 ∧
      Same m (m.put packet).2 ∧ ∃ start', Holds (m.put packet).2
        ((Call.put packet).onQueue m.maxPacketCount.toNat m.maxDataSize.toNat packets).2 start' := by
  obtain ⟨start', hholds, hfree⟩ := h.freeOffset hfits packet.length
  rw [BufferManager.put, hfree, Call.onQueue]
  by_cases hroom : packets.length = m.maxPacketCount.toNat ∨
      m.maxDataSize.toNat - packets.flatten.length < packet.length
  · rw [if_pos hroom, if_pos hroom]
    exact ⟨rfl, ⟨rfl, rfl, rfl, rfl⟩, start, h⟩
  · rw [if_neg hroom, if_neg hroom]
    have hcount := h.count_le
    have hpos : 0 < packet.length := List.length_pos_iff.mpr hne
    obtain ⟨hstored, hsame⟩ := hholds.store hfits hne (by omega) (by omega)
    exact ⟨rfl, hsame, start', hstored⟩

theorem Holds.release (h : Holds m packets start) (hfits : m.Fits) (count : UInt32) :
    (m.release count).1 =
        ((Call.release count).onQueue m.maxPacketCount.toNat m.maxDataSize.toNat packets).1 ∧
      Same m (m.release count).2 ∧ ∃ start', Holds (m.release count).2
        ((Call.release count).onQueue m.maxPacketCount.toNat m.maxDataSize.toNat packets).2 start' := by
  have hlt : m.info.packetCount < count ↔ packets.length < count.toNat := by
    rw [UInt32.lt_iff_toNat_lt, h.count_eq]
  rw [BufferManager.release, Call.onQueue]
  simp only [hlt]
  split
  · exact ⟨rfl, ⟨rfl, rfl, rfl, rfl⟩, start, h⟩
  · next hge =>
    have hle : count.toNat ≤ packets.length := not_lt.mp hge
    have hbound := hfits.maxPacketCount_le
    have hcount := h.count_le
    have hbegin := h.begin_lt
    have hsize : 0 < m.maxDataSize.toNat := Nat.zero_lt_of_lt h.start_lt
    -- the packets that are released, and the others
    obtain ⟨gone, rest, rfl, hgone⟩ : ∃ gone rest, packets = gone ++ rest ∧ gone.length = count.toNat :=
      ⟨packets.take count.toNat, packets.drop count.toNat, (List.take_append_drop ..).symm,
        List.length_take_of_le hle⟩
    have hflatten : (gone ++ rest).flatten.length = gone.flatten.length + rest.flatten.length := by simp
    have hnext : ((m.info.beginIndex + count) % m.maxPacketCount).toNat =
        (m.info.beginIndex.toNat + gone.length) % m.maxPacketCount.toNat := by
      have hwrap : m.info.beginIndex.toNat + count.toNat < 2 ^ 32 := by omega
      rw [UInt32.toNat_mod, UInt32.toNat_add, Nat.mod_eq_of_lt hwrap, hgone]
    have hdrop : (gone ++ rest).drop count.toNat = rest := by rw [← hgone, List.drop_left]
    have hinfos := h.infos
    have hdata := h.data
    rw [List.length_append, Ring.contents_add, layout_append] at hinfos
    rw [hflatten, Ring.contents_add, List.flatten_append] at hdata
    have hheld : Holds { m with info := { m.info with
        packetCount := m.info.packetCount - count
        beginIndex := (m.info.beginIndex + count) % m.maxPacketCount } } rest
        ((start + gone.flatten.length) % m.maxDataSize.toNat) := by
      constructor
      · exact hnext ▸ Nat.mod_lt _ (Nat.zero_lt_of_lt hbegin)
      · have hcountLe : count ≤ m.info.packetCount := by
          rw [UInt32.le_iff_toNat_le, h.count_eq]
          exact hle
        rw [UInt32.toNat_sub_of_le _ _ hcountLe, h.count_eq, List.length_append, hgone, Nat.add_sub_cancel_left]
      · exact (by simp : rest.length ≤ (gone ++ rest).length).trans hcount
      · dsimp only
        rw [hnext, h.end_eq, List.length_append, Nat.mod_add_mod, add_assoc]
      · exact Nat.mod_lt _ hsize
      · dsimp only
        rw [hnext, Ring.contents_mod, layout_mod]
        exact (List.append_inj hinfos (Ring.length_contents.trans length_layout.symm)).2
      · exact (by omega : rest.flatten.length ≤ (gone ++ rest).flatten.length).trans h.size_le
      · exact Ring.contents_mod.trans (List.append_inj hdata Ring.length_contents).2
      · exact fun p hp => h.nonempty p (List.mem_append_right _ hp)
    rw [hdrop]
    exact ⟨rfl, same_updateBufferInfo, _, hheld.updateBufferInfo (hfits.of_same ⟨rfl, rfl, rfl, rfl⟩)⟩

theorem Holds.call (h : Holds m packets start) (hfits : m.Fits) {c : Call} (hc : ∀ p, c = .put p → p ≠ []) :
    (m.call c).1 = (c.onQueue m.maxPacketCount.toNat m.maxDataSize.toNat packets).1 ∧
      Same m (m.call c).2 ∧ ∃ start', Holds (m.call c).2
        (c.onQueue m.maxPacketCount.toNat m.maxDataSize.toNat packets).2 start' := by
  cases c with
  | put packet => exact h.put hfits (hc packet rfl)
  | release count => exact h.release hfits count

theorem Holds.run (h : Holds m packets start) (hfits : m.Fits) {calls : List Call}
    (hcalls : ∀ p, .put p ∈ calls → p ≠ []) :
    (m.run calls).1 = (queueRun m.maxPacketCount.toNat m.maxDataSize.toNat packets calls).1 ∧
      (m.run calls).2.stored = (queueRun m.maxPacketCount.toNat m.maxDataSize.toNat packets calls).2 := by
  induction calls generalizing m packets start with
  | nil => exact ⟨rfl, h.stored hfits⟩
  | cons c rest ih =>
      obtain ⟨hresult, hsame, start', hholds⟩ :=
        h.call hfits fun p hp => hcalls p (hp ▸ List.mem_cons_self)
      have hrest := ih hholds (hfits.of_same hsame) fun p hp => hcalls p (List.mem_cons_of_mem _ hp)
      rw [hsame.2.2.1, hsame.2.2.2] at hrest
      rw [BufferManager.run, queueRun, hresult, hrest.1]
      exact ⟨rfl, hrest.2⟩

theorem call_eq_of_failed {c : Call} (h : (m.call c).1 = false) : (m.call c).2 = m := by
  cases c with
  | put packet =>
      rw [call, put] at *
      split at h
      · rfl
      · exact absurd h.symm Bool.false_ne_true
  | release count =>
      rw [call, release] at *
      split at h
      · next hlt => rw [if_pos hlt]
      · exact absurd h.symm Bool.false_ne_true

section Construct

variable {sharedMemory : Nat → UInt8} {infoOffset bufferOffset maxPacketCount bufferSize : UInt32}

theorem holds_construct
    (hcount : 1 ≤ (construct sharedMemory infoOffset bufferOffset maxPacketCount bufferSize).maxPacketCount.toNat)
    (hsize : 1 ≤ (construct sharedMemory infoOffset bufferOffset maxPacketCount bufferSize).maxDataSize.toNat)
    (hfits : (construct sharedMemory infoOffset bufferOffset maxPacketCount bufferSize).Fits) :
    Holds (construct sharedMemory infoOffset bufferOffset maxPacketCount bufferSize) [] 0 := by
  rw [construct] at *
  obtain ⟨hinfo, hbuffer, hsameCount, hsameSize⟩ := same_updateBufferInfo (m := {
    sharedMemory, infoOffset, bufferOffset, maxPacketCount
    maxDataSize := bufferSize - UInt32.ofNat (sizeofPacketInfo * maxPacketCount.toNat) })
  rw [hsameCount] at hcount
  rw [hsameSize] at hsize
  refine Holds.updateBufferInfo ?_ (hfits.of_same ⟨hinfo.symm, hbuffer.symm, hsameCount.symm, hsameSize.symm⟩)
  exact ⟨hcount, rfl, Nat.zero_le _, (Nat.mod_eq_of_lt hcount).symm, hsize, rfl, Nat.zero_le _, rfl, by simp⟩

/-- The buffer is a queue of packets with room for `maxPacketCount` of them and `maxDataSize` of
their bytes, and a call that fails changes nothing. -/
theorem stored_run {calls : List Call}
    (hcount : 1 ≤ (construct sharedMemory infoOffset bufferOffset maxPacketCount bufferSize).maxPacketCount.toNat)
    (hsize : 1 ≤ (construct sharedMemory infoOffset bufferOffset maxPacketCount bufferSize).maxDataSize.toNat)
    (hfits : (construct sharedMemory infoOffset bufferOffset maxPacketCount bufferSize).Fits)
    (hcalls : ∀ packet, .put packet ∈ calls → packet ≠ []) :
    let m := construct sharedMemory infoOffset bufferOffset maxPacketCount bufferSize
    (m.run calls).1 = (queueRun m.maxPacketCount.toNat m.maxDataSize.toNat [] calls).1 ∧
      (m.run calls).2.stored = (queueRun m.maxPacketCount.toNat m.maxDataSize.toNat [] calls).2 ∧
      ∀ c, ((m.run calls).2.call c).1 = false → ((m.run calls).2.call c).2 = (m.run calls).2 := by
  obtain ⟨hresults, hstored⟩ := (holds_construct hcount hsize hfits).run hfits hcalls
  exact ⟨hresults, hstored, fun c hfailed => call_eq_of_failed hfailed⟩

end Construct

/-- A packet behind the end of the bytes, which goes to the front of them. -/
theorem stored_run_wrapped :
    ((construct (fun _ => 0) 0x10 0x20 2 21).run
      [.put [1, 2, 3], .put [4], .put [9], .release 1, .put [5, 6, 7, 8]]).2.stored = [[4], [5, 6, 7, 8]] :=
  (stored_run (by decide) (by decide)
    ⟨.inr (.inl (by decide)), by decide, by decide⟩ (by simp)).2.1.trans
    (by decide)

/-- The infos of `2 ^ 29` packets take 32 bits of offsets, so that the bytes of the packets are put over
them. -/
theorem stored_overlapping :
    1 ≤ (construct (fun _ => 0) 0x10 0x20 0x20000000 64).maxPacketCount ∧
      1 ≤ (construct (fun _ => 0) 0x10 0x20 0x20000000 64).maxDataSize ∧
      ((construct (fun _ => 0) 0x10 0x20 0x20000000 64).run [.put [1]]).1 = [true] ∧
      ((construct (fun _ => 0) 0x10 0x20 0x20000000 64).run [.put [1]]).2.stored = [[0]] := by
  decide

end BufferManager

end Cytrus.Ir
