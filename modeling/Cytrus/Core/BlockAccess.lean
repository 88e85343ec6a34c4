import Cytrus.Kernel.GuestMemory

/-!
# Block accesses to guest memory

`ReadBlock`, `WriteBlock`, `ZeroBlock` and `CopyBlock` walk a range page by page.
The page index starts at `addr >> CITRA_PAGE_BITS` and is incremented as a
`size_t`, so it is not reduced to the 20 bits of a page number.

## Implementation notes

The control of the four loops depends on the start address and the size alone:
`chunks` lists their rounds. A run records the rounds it has made, apart for the
range it reads and the range it writes. Flushing the rasterizer's caches is not
part of the model.
-/

namespace Cytrus.Memory

open Support

/-- One round of a block loop, with the number of bytes that earlier rounds have consumed. -/
structure Chunk where
  pageIndex : Nat
  pageOffset : Nat
  copyAmount : Nat
  consumed : Nat
  deriving DecidableEq, Repr

/-- `current_vaddr`, cast to 32 bits. -/
def Chunk.currentVaddr (c : Chunk) : Nat := (c.pageIndex * pageSize + c.pageOffset) % 2 ^ 32

/-- The rounds of `while (remaining_size > 0)`. -/
def chunksFrom (pageIndex : Nat) (pageOffset : Fin pageSize) (consumed : Nat) : Nat → List Chunk
  | 0 => []
  | remaining + 1 =>
      let copyAmount := min (pageSize - pageOffset) (remaining + 1)
      ⟨pageIndex, pageOffset, copyAmount, consumed⟩ ::
        chunksFrom (pageIndex + 1) ⟨0, by decide⟩ (consumed + copyAmount)
          (remaining + 1 - copyAmount)
  termination_by remaining => remaining
  decreasing_by
    have := pageOffset.isLt
    omega

/-- The rounds for a start address and a size. -/
def chunks (addr size : Nat) : List Chunk :=
  chunksFrom (addr / pageSize) ⟨addr % pageSize, Nat.mod_lt _ (by decide)⟩ 0 size

/-- Memory, the bytes copied to `dest_buffer`, and the rounds made so far. -/
structure BlockState where
  memory : MemorySystem
  destBuffer : List UInt8 := []
  reads : List Chunk := []
  writes : List Chunk := []

/-- A block access has no error code. -/
abbrev Access := Exec Fault Empty BlockState PUnit

namespace MemorySystem

/-- Host bytes from a pointer on. -/
def load (m : MemorySystem) (pointer count : Nat) : List UInt8 :=
  (List.range count).map fun i => m.bytes (pointer + i)

/-- The bytes behind a page: zeros if it is unmapped. -/
def fetch (m : MemorySystem) (count : Nat) : Option Nat → List UInt8
  | none => List.replicate count 0
  | some pointer => m.load pointer count

/-- Store bytes behind a page, unless it is unmapped. -/
def deposit (m : MemorySystem) (data : List UInt8) : Option Nat → MemorySystem
  | none => m
  | some pointer => m.store pointer data

/-- The host memory of a round by the attribute of its page; `none` for an unmapped page. -/
def hostOf (m : MemorySystem) (table : PageTable) (c : Chunk) : Except Fault (Option Nat) :=
  if c.pageIndex < pageTableNumEntries then
    match (table c.pageIndex).attributes with
    | .unmapped => .ok none
    | .memory => .ok (some ((table c.pageIndex).pointer.getPtr + c.pageOffset))
    | .rasterizerCachedMemory =>
        match m.getPointerForRasterizerCache c.currentVaddr with
        | some pointer => .ok (some pointer)
        | none => .error .unreachable
  else .error .outOfBounds

end MemorySystem

namespace BlockState

def recordRead (c : Chunk) (s : BlockState) : BlockState := { s with reads := s.reads ++ [c] }

def recordWrite (c : Chunk) (s : BlockState) : BlockState := { s with writes := s.writes ++ [c] }

/-- `memset` or `memcpy` to `dest_buffer`. -/
def fill (c : Chunk) (host : Option Nat) (s : BlockState) : BlockState :=
  { s with destBuffer := s.destBuffer ++ s.memory.fetch c.copyAmount host }

/-- `memset` or `memcpy` to the host memory of the round. -/
def put (source : MemorySystem → Chunk → List UInt8) (c : Chunk) (host : Option Nat)
    (s : BlockState) : BlockState :=
  { s with memory := s.memory.deposit (source s.memory c) host }

end BlockState

/-- One round: `page_table.attributes[page_index]`, and what the loop does with the page. -/
def round (record : Chunk → BlockState → BlockState) (table : PageTable)
    (body : Chunk → Option Nat → Access) (c : Chunk) : Access := do
  Exec.modify (record c)
  let host ← Exec.lookup fun s => s.memory.hostOf table c
  body c host

/-- The page loop that the block accesses share. -/
def blockLoop (record : Chunk → BlockState → BlockState) (table : PageTable) (addr size : Nat)
    (body : Chunk → Option Nat → Access) : Access :=
  Exec.forEach (chunks addr size) (round record table body)

def readBlock (table : PageTable) (srcAddr size : Nat) : Access :=
  blockLoop .recordRead table srcAddr size fun c host => Exec.modify (.fill c host)

/-- The loop that `WriteBlock` and `ZeroBlock` share. -/
def storeBlock (table : PageTable) (destAddr size : Nat)
    (source : MemorySystem → Chunk → List UInt8) : Access :=
  blockLoop .recordWrite table destAddr size fun c host => Exec.modify (.put source c host)

/-- `WriteBlock` from a buffer of the emulator. -/
def writeBlock (table : PageTable) (destAddr : Nat) (srcBuffer : List UInt8) : Access :=
  storeBlock table destAddr srcBuffer.length fun _ c =>
    (srcBuffer.drop c.consumed).take c.copyAmount

/-- `WriteBlock` from host memory, which is read again in each round. -/
def writeBlockFrom (table : PageTable) (destAddr pointer size : Nat) : Access :=
  storeBlock table destAddr size fun m c => m.load (pointer + c.consumed) c.copyAmount

def zeroBlock (table : PageTable) (destAddr size : Nat) : Access :=
  storeBlock table destAddr size fun _ c => List.replicate c.copyAmount 0

/-- What `CopyBlock` does with the host memory of a round. -/
def copyChunk (destTable : PageTable) (destAddr size : Nat) : Option Nat → Access
  | none => zeroBlock destTable destAddr size
  | some pointer => writeBlockFrom destTable destAddr pointer size

/-- `CopyBlock`; `dest_addr` is advanced as a 32-bit address. -/
def copyBlock (destTable srcTable : PageTable) (destAddr srcAddr size : Nat) : Access :=
  blockLoop .recordRead srcTable srcAddr size fun c host =>
    copyChunk destTable (add32 destAddr c.consumed) c.copyAmount host

/-! ## The rounds of a range -/

theorem chunksFrom_zero (page : Nat) (offset : Fin pageSize) (consumed : Nat) :
    chunksFrom page offset consumed 0 = [] := by
  rw [chunksFrom]

theorem chunksFrom_succ (page : Nat) (offset : Fin pageSize) (consumed remaining : Nat) :
    chunksFrom page offset consumed (remaining + 1) =
      ⟨page, offset, min (pageSize - offset) (remaining + 1), consumed⟩ ::
        chunksFrom (page + 1) ⟨0, by decide⟩
          (consumed + min (pageSize - offset) (remaining + 1))
          (remaining + 1 - min (pageSize - offset) (remaining + 1)) := by
  rw [chunksFrom]

/-- Where a round lies in a walk from `base` on that has to reach `stop`. -/
structure Chunk.Within (base start stop : Nat) (c : Chunk) : Prop where
  positive : 0 < c.copyAmount
  inPage : c.pageOffset + c.copyAmount ≤ pageSize
  place : c.pageIndex * pageSize + c.pageOffset = base + c.consumed
  after : start ≤ c.consumed
  before : c.consumed + c.copyAmount ≤ stop
  /-- Every round but the first begins at a page boundary. -/
  aligned : start < c.consumed → c.pageOffset = 0

section Rounds

variable {base : Nat}

theorem next_place {page : Nat} {offset : Fin pageSize} {start remaining : Nat}
    (hbase : page * pageSize + offset = base + start)
    (hmore : pageSize - offset ≤ remaining) :
    (page + 1) * pageSize + 0 = base + (start + min (pageSize - offset) remaining) := by
  rw [min_eq_left hmore, Nat.add_mul]
  omega

theorem chunksFrom_within (page : Nat) (offset : Fin pageSize) (start remaining : Nat)
    (hbase : page * pageSize + offset = base + start) :
    ∀ c ∈ chunksFrom page offset start remaining, c.Within base start (start + remaining) := by
  induction remaining using Nat.strong_induction_on generalizing page offset start with
  | _ remaining ih =>
      cases remaining with
      | zero => simp [chunksFrom_zero]
      | succ remaining =>
          have hoffset := offset.isLt
          intro c hc
          rw [chunksFrom_succ, List.mem_cons] at hc
          rcases hc with rfl | hc
          · constructor <;> dsimp only <;> omega
          · by_cases hmore : pageSize - offset ≤ remaining + 1
            · have hlater := ih (remaining + 1 - min (pageSize - offset) (remaining + 1)) (by omega)
                (page + 1) ⟨0, by decide⟩ _ (next_place hbase hmore) c hc
              have hnext := hlater.place
              have hfirst := next_place hbase hmore
              have hin := hlater.inPage
              have hpos := hlater.positive
              have hafter := hlater.after
              have hbefore := hlater.before
              refine ⟨hpos, hin, hnext, by omega, by omega, fun _ => ?_⟩
              by_cases hfresh : c.consumed = start + min (pageSize - offset) (remaining + 1)
              · rw [hfresh, ← hfirst] at hnext
                unfold pageSize at hnext hin
                omega
              · exact hlater.aligned (by omega)
            · rw [min_eq_right (by omega), Nat.sub_self, chunksFrom_zero] at hc
              simp at hc

theorem sum_chunksFrom (page : Nat) (offset : Fin pageSize) (start remaining : Nat) :
    ((chunksFrom page offset start remaining).map Chunk.copyAmount).sum = remaining := by
  induction remaining using Nat.strong_induction_on generalizing page offset start with
  | _ remaining ih =>
      cases remaining with
      | zero => simp [chunksFrom_zero]
      | succ remaining =>
          have hoffset := offset.isLt
          rw [chunksFrom_succ, List.map_cons, List.sum_cons, ih _ (by omega)]
          exact Nat.add_sub_of_le (min_le_right _ _)

theorem exists_mem_chunksFrom (page : Nat) (offset : Fin pageSize) (start remaining : Nat)
    {k : Nat} (hstart : start ≤ k) (hstop : k < start + remaining) :
    ∃ c ∈ chunksFrom page offset start remaining,
      c.consumed ≤ k ∧ k < c.consumed + c.copyAmount := by
  induction remaining using Nat.strong_induction_on generalizing page offset start with
  | _ remaining ih =>
      cases remaining with
      | zero => omega
      | succ remaining =>
          have hoffset := offset.isLt
          rw [chunksFrom_succ]
          by_cases hfirst : k < start + min (pageSize - offset) (remaining + 1)
          · exact ⟨_, List.mem_cons_self, hstart, hfirst⟩
          · obtain ⟨c, hc, hk⟩ := ih (remaining + 1 - min (pageSize - offset) (remaining + 1))
              (by omega) (page + 1) ⟨0, by decide⟩
              (start + min (pageSize - offset) (remaining + 1)) (by omega) (by omega)
            exact ⟨c, List.mem_cons_of_mem _ hc, hk⟩

end Rounds

variable {addr size : Nat}

theorem chunks_within {c : Chunk} (hc : c ∈ chunks addr size) : c.Within addr 0 size := by
  have hplace : addr / pageSize * pageSize + addr % pageSize = addr + 0 := by
    rw [Nat.mul_comm]
    exact Nat.div_add_mod addr pageSize
  simpa using chunksFrom_within _ _ _ _ hplace c hc

theorem sum_chunks (addr size : Nat) : ((chunks addr size).map Chunk.copyAmount).sum = size :=
  sum_chunksFrom _ _ _ _

theorem exists_mem_chunks (addr : Nat) {k : Nat} (hk : k < size) :
    ∃ c ∈ chunks addr size, c.consumed ≤ k ∧ k < c.consumed + c.copyAmount :=
  exists_mem_chunksFrom _ _ _ _ (Nat.zero_le k) (by omega)

/-- The rounds stay in the page table if and only if the range ends at or below `2^32`. -/
theorem chunks_inTable_iff (haddr : addr < 2 ^ 32) :
    (∀ c ∈ chunks addr size, c.pageIndex < pageTableNumEntries) ↔ addr + size ≤ 2 ^ 32 := by
  constructor
  · intro h
    by_contra hpast
    have hinside : 2 ^ 32 - addr < size := by omega
    obtain ⟨c, hc, -, hlast⟩ := exists_mem_chunks addr hinside
    have hin := (chunks_within hc).inPage
    have hplace := (chunks_within hc).place
    have htable := h c hc
    unfold pageSize at hplace hin
    unfold pageTableNumEntries at htable
    omega
  · intro h c hc
    have hin := chunks_within hc
    have hplace := hin.place
    have hbefore := hin.before
    have hpos := hin.positive
    unfold pageSize at hplace
    unfold pageTableNumEntries
    omega

/-! ## Runs of the four loops -/

/-- The rounds of one range: each uses an entry of the page table and stays in its page, and
together they consume `size` bytes. -/
structure Walks (size : Nat) (rounds : List Chunk) : Prop where
  inTable : ∀ c ∈ rounds, c.pageIndex < pageTableNumEntries
  inPage : ∀ c ∈ rounds, c.pageOffset + c.copyAmount ≤ pageSize
  total : (rounds.map Chunk.copyAmount).sum = size

/-- A call never indexes past the page table, and reads and writes the given numbers of bytes. -/
def StaysInTable (call : Access) (reads writes : Nat) : Prop :=
  ∀ m : MemorySystem, call.Post { memory := m }
    (fun _ t => Walks reads t.reads ∧ Walks writes t.writes) (fun _ _ => False)
    (· ≠ Fault.outOfBounds)

/-- The rounds that a call has added to the record. -/
def Recorded (reads writes : List Chunk) (s t : BlockState) : Prop :=
  t.reads = s.reads ++ reads ∧ t.writes = s.writes ++ writes

section Runs

variable {table : PageTable} {c : Chunk} {s t u : BlockState}
  {source : MemorySystem → Chunk → List UInt8}

theorem walks_nil : Walks 0 [] := ⟨by simp, by simp, rfl⟩

theorem walks_chunks (h : ∀ c ∈ chunks addr size, c.pageIndex < pageTableNumEntries) :
    Walks size (chunks addr size) :=
  ⟨h, fun _ hc => (chunks_within hc).inPage, sum_chunks addr size⟩

theorem Recorded.refl (s : BlockState) : Recorded [] [] s s :=
  ⟨(List.append_nil _).symm, (List.append_nil _).symm⟩

theorem Recorded.trans {r r' w w' : List Chunk} (h : Recorded r w s t) (h' : Recorded r' w' t u) :
    Recorded (r ++ r') (w ++ w') s u := by
  constructor
  · rw [h'.1, h.1, List.append_assoc]
  · rw [h'.2, h.2, List.append_assoc]

theorem recorded_recordRead : Recorded [c] [] s (s.recordRead c) :=
  ⟨rfl, (List.append_nil _).symm⟩

theorem recorded_recordWrite : Recorded [] [c] s (s.recordWrite c) :=
  ⟨(List.append_nil _).symm, rfl⟩

theorem recorded_put (host : Option Nat) : Recorded [] [] s (s.put source c host) :=
  Recorded.refl s

theorem hostOf_ne_outOfBounds {m : MemorySystem} (hc : c.pageIndex < pageTableNumEntries) :
    m.hostOf table c ≠ .error .outOfBounds := by
  unfold MemorySystem.hostOf
  rw [if_pos hc]
  cases (table c.pageIndex).attributes with
  | unmapped => nofun
  | memory => nofun
  | rasterizerCachedMemory =>
      dsimp only
      cases m.getPointerForRasterizerCache c.currentVaddr with
      | none => nofun
      | some pointer => nofun

theorem round_post {record : Chunk → BlockState → BlockState} {body : Chunk → Option Nat → Access}
    {r r' w w' : List Chunk} (hc : c.pageIndex < pageTableNumEntries)
    (hrecord : Recorded r w s (record c s))
    (hbody : ∀ host t, (body c host).Post t (fun _ u => Recorded r' w' t u)
      (fun _ _ => False) (· ≠ Fault.outOfBounds)) :
    (round record table body c).Post s (fun _ u => Recorded (r ++ r') (w ++ w') s u)
      (fun _ _ => False) (· ≠ Fault.outOfBounds) := by
  rw [round, Exec.post_bind, Exec.post_modify, Exec.post_bind, Exec.post_lookup]
  refine ⟨fun host _ => ?_, ?_⟩
  · exact (hbody host _).mono (fun _ u hu => hrecord.trans hu) (fun _ _ h => h) (fun _ h => h)
  · rintro f hf rfl
    exact hostOf_ne_outOfBounds hc hf

theorem recorded_forEach {reads writes : Chunk → List Chunk} {rounds : List Chunk}
    {body : Chunk → Access}
    (h : ∀ c ∈ rounds, ∀ s, (body c).Post s (fun _ t => Recorded (reads c) (writes c) s t)
      (fun _ _ => False) (· ≠ Fault.outOfBounds)) :
    (Exec.forEach rounds body).Post s
      (fun _ t => Recorded (rounds.flatMap reads) (rounds.flatMap writes) s t)
      (fun _ _ => False) (· ≠ Fault.outOfBounds) := by
  induction rounds generalizing s with
  | nil => exact Recorded.refl s
  | cons c rest ih =>
      rw [Exec.forEach, Exec.post_bind]
      refine (h c List.mem_cons_self s).mono (fun _ t ht => ?_) (fun _ _ h => h) (fun _ h => h)
      refine (ih fun d hd => h d (List.mem_cons_of_mem c hd)).mono (fun _ u hu => ?_)
        (fun _ _ h => h) (fun _ h => h)
      rw [List.flatMap_cons, List.flatMap_cons]
      exact ht.trans hu

theorem flatMap_nil (rounds : List Chunk) : rounds.flatMap (fun _ => ([] : List Chunk)) = [] := by
  simp

theorem readBlock_post (h : ∀ c ∈ chunks addr size, c.pageIndex < pageTableNumEntries) :
    (readBlock table addr size).Post s (fun _ t => Recorded (chunks addr size) [] s t)
      (fun _ _ => False) (· ≠ Fault.outOfBounds) := by
  have hloop : (readBlock table addr size).Post s
      (fun _ t => Recorded ((chunks addr size).flatMap fun c => [c])
        ((chunks addr size).flatMap fun _ => []) s t)
      (fun _ _ => False) (· ≠ Fault.outOfBounds) :=
    recorded_forEach fun c hc s => round_post (h c hc) recorded_recordRead fun _ t =>
      Recorded.refl t
  rwa [List.flatMap_singleton', flatMap_nil] at hloop

theorem storeBlock_post (h : ∀ c ∈ chunks addr size, c.pageIndex < pageTableNumEntries) :
    (storeBlock table addr size source).Post s (fun _ t => Recorded [] (chunks addr size) s t)
      (fun _ _ => False) (· ≠ Fault.outOfBounds) := by
  have hloop : (storeBlock table addr size source).Post s
      (fun _ t => Recorded ((chunks addr size).flatMap fun _ => [])
        ((chunks addr size).flatMap fun c => [c]) s t)
      (fun _ _ => False) (· ≠ Fault.outOfBounds) :=
    recorded_forEach fun c hc s => round_post (h c hc) recorded_recordWrite fun host _ =>
      recorded_put host
  rwa [List.flatMap_singleton', flatMap_nil] at hloop

/-- The rounds of the destination that belong to a round of the source. -/
def destRounds (destAddr : Nat) (c : Chunk) : List Chunk :=
  chunks (add32 destAddr c.consumed) c.copyAmount

theorem copyChunk_post (host : Option Nat)
    (h : ∀ c ∈ chunks addr size, c.pageIndex < pageTableNumEntries) :
    (copyChunk table addr size host).Post s (fun _ t => Recorded [] (chunks addr size) s t)
      (fun _ _ => False) (· ≠ Fault.outOfBounds) := by
  cases host with
  | none => exact storeBlock_post h
  | some pointer => exact storeBlock_post h

theorem copyBlock_post {destTable : PageTable} {destAddr : Nat}
    (h : ∀ c ∈ chunks addr size, c.pageIndex < pageTableNumEntries)
    (hdest : ∀ c ∈ chunks addr size, ∀ d ∈ destRounds destAddr c,
      d.pageIndex < pageTableNumEntries) :
    (copyBlock destTable table destAddr addr size).Post s
      (fun _ t => Recorded (chunks addr size) ((chunks addr size).flatMap (destRounds destAddr)) s t)
      (fun _ _ => False) (· ≠ Fault.outOfBounds) := by
  have hloop : (copyBlock destTable table destAddr addr size).Post s
      (fun _ t => Recorded ((chunks addr size).flatMap fun c => [c])
        ((chunks addr size).flatMap (destRounds destAddr)) s t)
      (fun _ _ => False) (· ≠ Fault.outOfBounds) :=
    recorded_forEach fun c hc s => round_post (h c hc) recorded_recordRead fun host _ =>
      copyChunk_post host (hdest c hc)
  rwa [List.flatMap_singleton'] at hloop

theorem walks_dest {destAddr : Nat}
    (hdest : ∀ c ∈ chunks addr size, ∀ d ∈ destRounds destAddr c,
      d.pageIndex < pageTableNumEntries) :
    Walks size ((chunks addr size).flatMap (destRounds destAddr)) := by
  constructor
  case inTable =>
    intro d hd
    obtain ⟨c, hc, hd⟩ := List.mem_flatMap.mp hd
    exact hdest c hc d hd
  case inPage =>
    intro d hd
    obtain ⟨c, -, hd⟩ := List.mem_flatMap.mp hd
    exact (chunks_within hd).inPage
  case total =>
    rw [List.map_flatMap, List.flatMap_def, List.sum_flatten, List.map_map]
    have hsum : ∀ c : Chunk,
        ((destRounds destAddr c).map Chunk.copyAmount).sum = c.copyAmount := fun c =>
      sum_chunks (add32 destAddr c.consumed) c.copyAmount
    refine Eq.trans ?_ (sum_chunks addr size)
    exact congrArg List.sum (List.map_congr_left fun c _ => hsum c)

/-! ## Runs past the end of the table -/

/-- The lookup of a cleared table only fails past its end. -/
theorem hostOf_clear (m : MemorySystem) (c : Chunk) :
    m.hostOf PageTable.clear c =
      if c.pageIndex < pageTableNumEntries then .ok none else .error .outOfBounds := rfl

/-- What a loop does to a cleared table: it makes its rounds, or indexes past the end. -/
def Clears (call : Access) (s : BlockState) (inside : Prop) : Prop :=
  call.Post s (fun _ _ => inside) (fun _ _ => False) (· = Fault.outOfBounds)

theorem clears_modify (f : BlockState → BlockState) : Clears (Exec.modify f) s True := trivial

theorem clears_round {record : Chunk → BlockState → BlockState}
    {body : Chunk → Option Nat → Access} {inside : Prop}
    (hbody : ∀ host t, Clears (body c host) t inside) :
    Clears (round record PageTable.clear body c) s
      (c.pageIndex < pageTableNumEntries ∧ inside) := by
  unfold Clears
  rw [round, Exec.post_bind, Exec.post_modify, Exec.post_bind, Exec.post_lookup, hostOf_clear]
  by_cases hc : c.pageIndex < pageTableNumEntries
  · rw [if_pos hc]
    refine ⟨fun host _ => ?_, nofun⟩
    exact (hbody host _).mono (fun _ _ hin => ⟨hc, hin⟩) (fun _ _ h => h) (fun _ h => h)
  · rw [if_neg hc]
    refine ⟨nofun, fun f hf => ?_⟩
    cases hf
    rfl

theorem clears_blockLoop {record : Chunk → BlockState → BlockState}
    {body : Chunk → Option Nat → Access} {inside : Chunk → Prop}
    (hbody : ∀ c host t, Clears (body c host) t (inside c)) (addr size : Nat) :
    Clears (blockLoop record PageTable.clear addr size body) s
      (∀ c ∈ chunks addr size, c.pageIndex < pageTableNumEntries ∧ inside c) := by
  unfold blockLoop
  induction chunks addr size generalizing s with
  | nil => exact fun c hc => absurd hc List.not_mem_nil
  | cons c rest ih =>
      unfold Clears
      rw [Exec.forEach, Exec.post_bind]
      refine (clears_round (hbody c)).mono (fun _ t hc => ?_) (fun _ _ h => h) (fun _ h => h)
      refine ih.mono (fun _ _ hrest => ?_) (fun _ _ h => h) (fun _ h => h)
      exact List.forall_mem_cons.mpr ⟨hc, hrest⟩

theorem Clears.mono {call : Access} {inside inside' : Prop} (h : Clears call s inside)
    (himp : inside → inside') : Clears call s inside' :=
  Exec.Post.mono h (fun _ _ hin => himp hin) (fun _ _ h => h) (fun _ h => h)

theorem clears_readBlock (addr size : Nat) :
    Clears (readBlock PageTable.clear addr size) s
      (∀ c ∈ chunks addr size, c.pageIndex < pageTableNumEntries) := by
  have hloop : Clears (readBlock PageTable.clear addr size) s
      (∀ c ∈ chunks addr size, c.pageIndex < pageTableNumEntries ∧ True) :=
    clears_blockLoop (fun c host _ => clears_modify _) addr size
  exact hloop.mono fun h c hc => (h c hc).1

theorem clears_storeBlock (addr size : Nat) :
    Clears (storeBlock PageTable.clear addr size source) s
      (∀ c ∈ chunks addr size, c.pageIndex < pageTableNumEntries) := by
  have hloop : Clears (storeBlock PageTable.clear addr size source) s
      (∀ c ∈ chunks addr size, c.pageIndex < pageTableNumEntries ∧ True) :=
    clears_blockLoop (fun c host _ => clears_modify _) addr size
  exact hloop.mono fun h c hc => (h c hc).1

theorem clears_copyBlock (destAddr addr size : Nat) :
    Clears (copyBlock PageTable.clear PageTable.clear destAddr addr size) s
      (∀ c ∈ chunks addr size, c.pageIndex < pageTableNumEntries ∧
        ∀ d ∈ destRounds destAddr c, d.pageIndex < pageTableNumEntries) := by
  refine clears_blockLoop (fun c host t => ?_) addr size
  cases host with
  | none => exact clears_storeBlock (add32 destAddr c.consumed) c.copyAmount
  | some pointer => exact clears_storeBlock (add32 destAddr c.consumed) c.copyAmount

theorem StaysInTable.inside {call : Access} {reads writes : Nat} {inside : Prop}
    (h : StaysInTable call reads writes) (hclears : ∀ s, Clears call s inside) : inside := by
  have m : MemorySystem := ⟨fun _ => 0, ⟨0, 0⟩, ⟨0, 0⟩, 0⟩
  have hboth := (h m).and (hclears { memory := m })
  cases hcall : call { memory := m } with
  | value a t => exact (hboth.value hcall).2
  | error e t => exact (hboth.error hcall).1.elim
  | fault f => exact absurd (hboth.fault hcall).2 (hboth.fault hcall).1

end Runs

/-! ## The ranges that stay in the page table -/

theorem readBlock_stays_iff (haddr : addr < 2 ^ 32) :
    (∀ table, StaysInTable (readBlock table addr size) size 0) ↔ addr + size ≤ 2 ^ 32 := by
  rw [← chunks_inTable_iff haddr]
  constructor
  · intro h
    exact (h PageTable.clear).inside fun s => clears_readBlock addr size
  · intro h table m
    refine (readBlock_post h).mono (fun _ t ht => ?_) (fun _ _ h => h) (fun _ h => h)
    rw [ht.1, ht.2]
    exact ⟨walks_chunks h, walks_nil⟩

theorem storeBlock_stays_iff (haddr : addr < 2 ^ 32)
    (source : MemorySystem → Chunk → List UInt8) :
    (∀ table, StaysInTable (storeBlock table addr size source) 0 size) ↔ addr + size ≤ 2 ^ 32 := by
  rw [← chunks_inTable_iff haddr]
  constructor
  · intro h
    exact (h PageTable.clear).inside fun s => clears_storeBlock addr size
  · intro h table m
    refine (storeBlock_post h).mono (fun _ t ht => ?_) (fun _ _ h => h) (fun _ h => h)
    rw [ht.1, ht.2]
    exact ⟨walks_nil, walks_chunks h⟩

/-- The destination of a copy wraps around between rounds, and not inside one. -/
theorem destRounds_inTable_iff {destAddr : Nat} (hdest : destAddr < 2 ^ 32) :
    (∀ c ∈ chunks addr size, ∀ d ∈ destRounds destAddr c, d.pageIndex < pageTableNumEntries) ↔
      destAddr + size ≤ 2 ^ 32 ∨ destAddr % pageSize = addr % pageSize := by
  have hround : ∀ c ∈ chunks addr size,
      (∀ d ∈ destRounds destAddr c, d.pageIndex < pageTableNumEntries) ↔
        add32 destAddr c.consumed + c.copyAmount ≤ 2 ^ 32 := fun c _ =>
    chunks_inTable_iff (add32_lt destAddr c.consumed)
  constructor
  · intro h
    by_contra hneither
    rw [not_or] at hneither
    have hinside : 2 ^ 32 - destAddr < size := by omega
    obtain ⟨c, hc, hfirst, hlast⟩ := exists_mem_chunks addr hinside
    have hfits := (hround c hc).mp (h c hc)
    have hplace := (chunks_within hc).place
    have haligned := (chunks_within hc).aligned
    unfold pageSize at hplace hneither
    unfold add32 at hfits
    omega
  · intro h c hc
    rw [hround c hc]
    have hin := chunks_within hc
    have hpage := hin.inPage
    have hplace := hin.place
    have hbefore := hin.before
    unfold pageSize at hplace h hpage
    unfold add32
    omega

theorem copyBlock_stays_iff {destAddr : Nat} (hdest : destAddr < 2 ^ 32) (haddr : addr < 2 ^ 32) :
    (∀ destTable srcTable, StaysInTable (copyBlock destTable srcTable destAddr addr size) size size) ↔
      addr + size ≤ 2 ^ 32 ∧
        (destAddr + size ≤ 2 ^ 32 ∨ destAddr % pageSize = addr % pageSize) := by
  rw [← chunks_inTable_iff haddr, ← destRounds_inTable_iff hdest]
  constructor
  · intro h
    have hinside := (h PageTable.clear PageTable.clear).inside fun s =>
      clears_copyBlock destAddr addr size
    exact ⟨fun c hc => (hinside c hc).1, fun c hc => (hinside c hc).2⟩
  · intro ⟨hsrc, hdst⟩ destTable srcTable m
    refine (copyBlock_post hsrc hdst).mono (fun _ t ht => ?_) (fun _ _ h => h) (fun _ h => h)
    rw [ht.1, ht.2]
    exact ⟨walks_chunks hsrc, walks_dest hdst⟩

/-- Each block access uses the page table and consumes its bytes page by page, for every table
and content, exactly when its range ends at or below `2^32`. The destination of a copy may also
wrap around, if it lies at the same page offset as the source. -/
theorem block_accesses_stay_in_table_iff {addr destAddr : Nat} (haddr : addr < 2 ^ 32)
    (hdest : destAddr < 2 ^ 32) (size : Nat) :
    ((∀ table, StaysInTable (readBlock table addr size) size 0) ↔ addr + size ≤ 2 ^ 32) ∧
    ((∀ table (srcBuffer : List UInt8), srcBuffer.length = size →
        StaysInTable (writeBlock table addr srcBuffer) 0 size) ↔ addr + size ≤ 2 ^ 32) ∧
    ((∀ table, StaysInTable (zeroBlock table addr size) 0 size) ↔ addr + size ≤ 2 ^ 32) ∧
    ((∀ destTable srcTable,
        StaysInTable (copyBlock destTable srcTable destAddr addr size) size size) ↔
      addr + size ≤ 2 ^ 32 ∧
        (destAddr + size ≤ 2 ^ 32 ∨ destAddr % pageSize = addr % pageSize)) := by
  refine ⟨readBlock_stays_iff haddr, ?_, storeBlock_stays_iff haddr _,
    copyBlock_stays_iff hdest haddr⟩
  constructor
  · intro h
    have hlength := List.length_replicate (n := size) (a := (0 : UInt8))
    apply (storeBlock_stays_iff haddr
      fun _ c => ((List.replicate size (0 : UInt8)).drop c.consumed).take c.copyAmount).mp
    intro table
    have hwrite := h table (List.replicate size 0) hlength
    rwa [writeBlock, hlength] at hwrite
  · rintro h table srcBuffer rfl
    exact (storeBlock_stays_iff haddr _).mpr h table

theorem block_accesses_stay_in_table_iff_sixteen :
    ((∀ table, StaysInTable (readBlock table 0xFFFFFFF0 16) 16 0) ↔ 0xFFFFFFF0 + 16 ≤ 2 ^ 32) ∧
    ((∀ table (srcBuffer : List UInt8), srcBuffer.length = 16 →
        StaysInTable (writeBlock table 0xFFFFFFF0 srcBuffer) 0 16) ↔
      0xFFFFFFF0 + 16 ≤ 2 ^ 32) ∧
    ((∀ table, StaysInTable (zeroBlock table 0xFFFFFFF0 16) 0 16) ↔
      0xFFFFFFF0 + 16 ≤ 2 ^ 32) ∧
    ((∀ destTable srcTable,
        StaysInTable (copyBlock destTable srcTable 0x100000 0xFFFFFFF0 16) 16 16) ↔
      0xFFFFFFF0 + 16 ≤ 2 ^ 32 ∧
        (0x100000 + 16 ≤ 2 ^ 32 ∨ 0x100000 % pageSize = 0xFFFFFFF0 % pageSize)) :=
  block_accesses_stay_in_table_iff (by decide) (by decide) 16

/-- A read of the two bytes from the last address on indexes past the table. -/
theorem readBlock_leaves_table :
    ¬ ∀ addr size, addr < 2 ^ 32 → size < 2 ^ 28 →
      ∀ table, StaysInTable (readBlock table addr size) size 0 := by
  intro h
  have hlast := (readBlock_stays_iff (by decide)).mp (h 0xFFFFFFFF 2 (by decide) (by decide))
  omega

end Cytrus.Memory
