import Cytrus.Core.WidthAgreement

/-!
# Block accesses and their bytes

A block access, followed page by page, does what the byte-wise access of the
same range does. It agrees with single accesses up to the first page that
aborts, unless it runs past `2^32` or meets a page of one of the two mirrors.
-/

namespace Cytrus.Memory

open Support

/-! ## The byte-wise view of a block -/

namespace MemorySystem

variable {m : MemorySystem} {table : PageTable} {u i n : Nat}

theorem locate_shift (hm : m.Placed) (hi : u % pageSize + i < pageSize) :
    m.locate table (u + i) = (m.locate table u).map (Option.map (· + i)) := by
  unfold locate
  rw [div_inPage hi, mod_inPage hi, cached_shift hm hi]
  by_cases hin : u / pageSize < pageTableNumEntries
  · rw [if_pos hin, if_pos hin]
    cases (table (u / pageSize)).attributes with
    | unmapped => rfl
    | memory => simp [Nat.add_assoc]
    | rasterizerCachedMemory =>
        cases m.getPointerForRasterizerCache u with
        | none => rfl
        | some pointer => rfl
  · rw [if_neg hin, if_neg hin]
    rfl

theorem locate_past (h : 2 ^ 32 ≤ u) : m.locate table u = none := by
  unfold locate
  rw [if_neg]
  unfold pageSize pageTableNumEntries
  omega

theorem hostOf_eq {c : Chunk} (hoffset : c.pageOffset < pageSize)
    (hu : u = c.pageIndex * pageSize + c.pageOffset) :
    m.hostOf table c = if u < 2 ^ 32 then
      match m.locate table u with
      | some host => .ok host
      | none => .error .unreachable
    else .error .outOfBounds := by
  have hpage : u / pageSize = c.pageIndex := by
    unfold pageSize at *
    omega
  have hmod : u % pageSize = c.pageOffset := by
    unfold pageSize at *
    omega
  unfold hostOf locate
  rw [hpage, hmod]
  by_cases hin : c.pageIndex < pageTableNumEntries
  · have hu32 : u < 2 ^ 32 := by
      unfold pageTableNumEntries at hin
      unfold pageSize at *
      omega
    have hvaddr : c.currentVaddr = u := by
      rw [Chunk.currentVaddr, ← hu, Nat.mod_eq_of_lt hu32]
    rw [if_pos hin, if_pos hu32, if_pos hin, hvaddr]
    cases (table c.pageIndex).attributes with
    | unmapped => rfl
    | memory => rfl
    | rasterizerCachedMemory =>
        cases m.getPointerForRasterizerCache u with
        | none => rfl
        | some pointer => rfl
  · have hu32 : ¬ u < 2 ^ 32 := by
      unfold pageTableNumEntries at hin
      unfold pageSize at *
      omega
    rw [if_neg hin, if_neg hu32]

theorem readBlock_add (m : MemorySystem) (table : PageTable) (u k n : Nat) :
    m.readBlock table u (k + n) = (m.readBlock table u k).bind fun front =>
      (m.readBlock table (u + k) n).map fun back => front ++ back := by
  induction k generalizing u with
  | zero => simp [readBlock]
  | succ k ih =>
      rw [show k + 1 + n = k + n + 1 by omega, readBlock, readBlock, ih,
        show u + 1 + k = u + (k + 1) by omega]
      cases m.readByte table u with
      | none => rfl
      | some value =>
          cases m.readBlock table (u + 1) k with
          | none => rfl
          | some front =>
              cases m.readBlock table (u + (k + 1)) n with
              | none => rfl
              | some back => rfl

theorem writeBlock_append (m : MemorySystem) (table : PageTable) (u : Nat)
    (front back : List UInt8) :
    m.writeBlock table u (front ++ back) = (m.writeBlock table u front).bind fun m' =>
      m'.writeBlock table (u + front.length) back := by
  induction front generalizing m u with
  | nil => rfl
  | cons value rest ih =>
      rw [List.cons_append, writeBlock, writeBlock, List.length_cons,
        show u + (rest.length + 1) = u + 1 + rest.length by omega]
      cases m.writeByte table u value with
      | none => rfl
      | some m' => exact ih m' (u + 1)

theorem readBlock_inPage (hm : m.Placed) {host : Option Nat} (h : m.locate table u = some host)
    (hn : u % pageSize + n ≤ pageSize) : m.readBlock table u n = some (m.fetch n host) := by
  induction n with
  | zero => cases host <;> rfl
  | succ n ih =>
      have hlast : m.locate table (u + n) = some (host.map (· + n)) := by
        rw [locate_shift hm (by omega), h]
        rfl
      rw [readBlock_add, ih (by omega), Option.bind_some, readBlock, readByte, hlast]
      cases host with
      | none =>
          rw [fetch, fetch, List.replicate_succ']
          rfl
      | some pointer =>
          rw [fetch, fetch, load, load, List.range_succ, List.map_append]
          rfl

theorem locate_store (m : MemorySystem) (pointer : Nat) (data : List UInt8) :
    (m.store pointer data).locate = m.locate := rfl

theorem update_eq_store (m : MemorySystem) (pointer : Nat) (value : UInt8) :
    { m with bytes := Function.update m.bytes pointer value } = m.store pointer [value] := by
  refine ext_bytes (funext fun q => ?_) rfl rfl rfl
  rw [store_bytes]
  dsimp only
  by_cases hq : q = pointer
  · rw [hq, Function.update_self, if_pos le_rfl, Nat.sub_self]
    rfl
  · rw [Function.update_of_ne hq]
    split
    · rw [List.getElem?_eq_none (by simp only [List.length_singleton]; omega)]
      rfl
    · rfl

theorem writeBlock_inPage (hm : m.Placed) {host : Option Nat} {data : List UInt8}
    (h : m.locate table u = some host) (hn : u % pageSize + data.length ≤ pageSize) :
    m.writeBlock table u data = some (m.deposit data host) := by
  induction data using List.reverseRecOn with
  | nil =>
      cases host with
      | none => rfl
      | some pointer => rw [deposit, store_nil]; rfl
  | append_singleton front value ih =>
      rw [List.length_append, List.length_singleton] at hn
      rw [writeBlock_append, ih (by omega), Option.bind_some]
      cases host with
      | none =>
          rw [deposit, writeBlock, writeByte, locate_shift hm (by omega), h]
          rfl
      | some pointer =>
          have hlast : (m.store pointer front).locate table (u + front.length) =
              some (some (pointer + front.length)) := by
            rw [locate_store, locate_shift hm (by omega), h]
            rfl
          rw [deposit, writeBlock, writeByte, hlast]
          change some ({ m.store pointer front with bytes := _ } : MemorySystem) = _
          rw [update_eq_store, store_append]
          rfl

/-- The range leaves the page table before any page in it aborts. -/
def Overruns (m : MemorySystem) (table : PageTable) (u n : Nat) : Prop :=
  ∃ i < n, 2 ^ 32 ≤ u + i ∧ ∀ j < i, m.locate table (u + j) ≠ none

theorem readByte_eq_none : m.readByte table u = none ↔ m.locate table u = none := by
  unfold readByte
  exact Option.map_eq_none_iff

theorem writeByte_eq_none {value : UInt8} :
    m.writeByte table u value = none ↔ m.locate table u = none := by
  unfold writeByte
  exact Option.map_eq_none_iff

theorem locate_writeByte {value : UInt8} {m' : MemorySystem}
    (h : m.writeByte table u value = some m') : m'.locate = m.locate := by
  obtain ⟨place, -, rfl⟩ := Option.map_eq_some_iff.mp h
  cases place with
  | none => rfl
  | some pointer => rfl

/-- A byte-wise read returns if and only if it finds all its bytes. -/
theorem readBlock_eq_none :
    m.readBlock table u n = none ↔ ∃ j < n, m.locate table (u + j) = none := by
  induction n generalizing u with
  | zero => exact iff_of_false nofun fun ⟨j, hj, _⟩ => Nat.not_lt_zero j hj
  | succ n ih =>
      have hrest : (∃ j < n, m.locate table (u + (j + 1)) = none) ↔
          m.readBlock table (u + 1) n = none := by
        rw [ih]
        simp only [Nat.add_assoc, Nat.add_comm 1]
      rw [Nat.exists_lt_succ_left, Nat.add_zero, hrest, readBlock, ← readByte_eq_none]
      cases m.readByte table u with
      | none => simp
      | some value =>
          cases m.readBlock table (u + 1) n with
          | none => simp
          | some rest => simp

theorem writeBlock_eq_none {data : List UInt8} :
    m.writeBlock table u data = none ↔ ∃ j < data.length, m.locate table (u + j) = none := by
  induction data generalizing m u with
  | nil => exact iff_of_false nofun fun ⟨j, hj, _⟩ => Nat.not_lt_zero j hj
  | cons value rest ih =>
      rw [List.length_cons, Nat.exists_lt_succ_left, Nat.add_zero, writeBlock]
      cases hwrite : m.writeByte table u value with
      | none => exact iff_of_true rfl (.inl (writeByte_eq_none.mp hwrite))
      | some m' =>
          have hfirst : m.locate table u ≠ none := by
            intro hnone
            rw [writeByte_eq_none.mpr hnone] at hwrite
            cases hwrite
          change m'.writeBlock table (u + 1) rest = none ↔ _
          rw [ih, locate_writeByte hwrite]
          simp only [Nat.add_assoc, Nat.add_comm 1, hfirst, false_or]

end MemorySystem

/-! ## Runs of the loops -/

/-- The rounds still to come, after `consumed` of the `size` bytes from `base` on. -/
structure Remaining (base size consumed : Nat) (rounds : List Chunk) : Prop where
  le : consumed ≤ size
  rest : ∃ page offset, rounds = chunksFrom page offset consumed (size - consumed) ∧
    (consumed < size → page * pageSize + offset = base + consumed)

section Loops

variable {table : PageTable} {s : BlockState} {base size consumed : Nat} {c : Chunk}
  {rest : List Chunk}

theorem remaining_chunks (base size : Nat) : Remaining base size 0 (chunks base size) := by
  refine ⟨Nat.zero_le size, base / pageSize, ⟨base % pageSize, _⟩, rfl, fun _ => ?_⟩
  rw [Nat.mul_comm]
  exact Nat.div_add_mod base pageSize

theorem Remaining.next (h : Remaining base size consumed (c :: rest)) :
    c.consumed = consumed ∧ 0 < c.copyAmount ∧ c.pageOffset + c.copyAmount ≤ pageSize ∧
      base + consumed = c.pageIndex * pageSize + c.pageOffset ∧
      Remaining base size (consumed + c.copyAmount) rest := by
  obtain ⟨hle, page, offset, hrounds, hplace⟩ := h
  have hoffset := offset.isLt
  cases hremaining : size - consumed with
  | zero =>
      rw [hremaining, chunksFrom_zero] at hrounds
      cases hrounds
  | succ remaining =>
      rw [hremaining, chunksFrom_succ] at hrounds
      obtain ⟨rfl, rfl⟩ := List.cons.inj hrounds
      dsimp only
      refine ⟨rfl, by omega, by omega, (hplace (by omega)).symm, by omega, page + 1, ⟨0, by decide⟩,
        ?_, fun hmore => ?_⟩
      · rw [show size - (consumed + min (pageSize - ↑offset) (remaining + 1)) =
          remaining + 1 - min (pageSize - ↑offset) (remaining + 1) by omega]
      · have hfirst := hplace (by omega)
        rw [min_eq_left (by omega)] at hmore ⊢
        change (page + 1) * pageSize + 0 = _
        rw [Nat.add_mul]
        omega

theorem Remaining.done (h : Remaining base size consumed []) : consumed = size := by
  obtain ⟨hle, page, offset, hrounds, -⟩ := h
  cases hremaining : size - consumed with
  | zero => omega
  | succ remaining =>
      rw [hremaining, chunksFrom_succ] at hrounds
      cases hrounds

theorem overruns_iff {m : MemorySystem} (hmore : consumed < size)
    (hfound : ∀ j < consumed, m.locate table (base + j) ≠ none)
    (hfails : m.locate table (base + consumed) = none) :
    m.Overruns table base size ↔ 2 ^ 32 ≤ base + consumed := by
  constructor
  · rintro ⟨i, hi, hpast, hbefore⟩
    by_contra hlow
    exact hbefore consumed (by omega) hfails
  · intro hpast
    exact ⟨consumed, hmore, hpast, hfound⟩

theorem round_post_of_locate {record : Chunk → BlockState → BlockState}
    {change : Chunk → Option Nat → BlockState → BlockState} {u : Nat}
    {Q : PUnit → BlockState → Prop} {F : Fault → Prop} (hrecord : (record c s).memory = s.memory)
    (hoffset : c.pageOffset < pageSize) (hu : u = c.pageIndex * pageSize + c.pageOffset)
    (hfound : ∀ host, s.memory.locate table u = some host →
      Q ⟨⟩ (change c host (record c s)))
    (hfails : ∀ f, s.memory.locate table u = none → (f = .outOfBounds ↔ 2 ^ 32 ≤ u) → F f) :
    (round record table (fun c host => Exec.modify (change c host)) c).Post s Q
      (fun _ _ => False) F := by
  rw [round, Exec.post_bind, Exec.post_modify, Exec.post_bind, Exec.post_lookup, hrecord,
    MemorySystem.hostOf_eq hoffset hu]
  by_cases hlow : u < 2 ^ 32
  · rw [if_pos hlow]
    cases hlocate : s.memory.locate table u with
    | none =>
        refine ⟨(fun host hhost => by cases hhost), fun f hf => hfails f hlocate (iff_of_false ?_ (by omega))⟩
        cases hf
        decide
    | some host =>
        refine ⟨fun host' hhost => ?_, (fun f hf => by cases hf)⟩
        cases hhost
        exact hfound host hlocate
  · rw [if_neg hlow]
    refine ⟨(fun host hhost => by cases hhost), fun f hf => ?_⟩
    cases hf
    exact hfails _ (MemorySystem.locate_past (by omega)) (iff_of_true rfl (by omega))

theorem readBlock_bytes {m : MemorySystem} (hm : m.Placed) :
    (readBlock table base size).Post { memory := m }
      (fun _ t => m.readBlock table base size = some t.destBuffer) (fun _ _ => False)
      (fun f => m.readBlock table base size = none ∧
        (f = .outOfBounds ↔ m.Overruns table base size)) := by
  refine (Exec.post_forEach (fun rounds (t : BlockState) => ∃ consumed, Remaining base size consumed rounds ∧
    t.memory = m ∧ m.readBlock table base consumed = some t.destBuffer) (fun c rest t => ?_)
    (chunks base size) ({ memory := m } : BlockState) ⟨0, remaining_chunks base size, rfl, rfl⟩).mono
    (fun _ t ht => ?_) (fun _ _ h => h) (fun _ h => h)
  rotate_left
  · obtain ⟨consumed, hremaining, -, hread⟩ := ht
    rwa [hremaining.done] at hread
  · rintro ⟨consumed, hremaining, hmemory, hread⟩
    obtain ⟨-, hpos, hpage, haddr, hrest⟩ := hremaining.next
    have hmod : (base + consumed) % pageSize = c.pageOffset := by
      rw [haddr, Nat.mul_add_mod_self_right]
      exact Nat.mod_eq_of_lt (by omega)
    have hmore := hrest.le
    refine round_post_of_locate rfl (by omega) haddr (fun host hhost => ?_)
      fun f hnone hpast => ?_
    · rw [hmemory] at hhost
      refine ⟨consumed + c.copyAmount, hrest, hmemory, ?_⟩
      rw [MemorySystem.readBlock_add, hread, Option.bind_some,
        MemorySystem.readBlock_inPage hm hhost (by omega)]
      exact congrArg (fun m => some (t.destBuffer ++ m.fetch c.copyAmount host)) hmemory.symm
    · rw [hmemory] at hnone
      refine ⟨MemorySystem.readBlock_eq_none.mpr ⟨consumed, by omega, hnone⟩, ?_⟩
      rw [hpast, overruns_iff (by omega) (fun j hj hlost => ?_) hnone]
      rw [MemorySystem.readBlock_eq_none.mpr ⟨j, hj, hlost⟩] at hread
      cases hread

theorem take_slice {srcBuffer : List UInt8} {consumed count : Nat} :
    srcBuffer.take (consumed + count) =
      srcBuffer.take consumed ++ (srcBuffer.drop consumed).take count := by
  rw [List.take_add]

theorem writeBlock_bytes {m : MemorySystem} (hm : m.Placed) (srcBuffer : List UInt8) :
    (writeBlock table base srcBuffer).Post { memory := m }
      (fun _ t => m.writeBlock table base srcBuffer = some t.memory) (fun _ _ => False)
      (fun f => m.writeBlock table base srcBuffer = none ∧
        (f = .outOfBounds ↔ m.Overruns table base srcBuffer.length)) := by
  refine (Exec.post_forEach (fun rounds (t : BlockState) => ∃ consumed,
    Remaining base srcBuffer.length consumed rounds ∧ t.memory.locate = m.locate ∧
      t.memory.Placed ∧ m.writeBlock table base (srcBuffer.take consumed) = some t.memory)
    (fun c rest t => ?_) (chunks base srcBuffer.length) ({ memory := m } : BlockState)
    ⟨0, remaining_chunks _ _, rfl, hm, rfl⟩).mono (fun _ t ht => ?_) (fun _ _ h => h) (fun _ h => h)
  rotate_left
  · obtain ⟨consumed, hremaining, -, -, hwrite⟩ := ht
    rwa [hremaining.done, List.take_length] at hwrite
  · rintro ⟨consumed, hremaining, hlocate, hplaced, hwrite⟩
    obtain ⟨hconsumed, hpos, hpage, haddr, hrest⟩ := hremaining.next
    have hmod : (base + consumed) % pageSize = c.pageOffset := by
      rw [haddr, Nat.mul_add_mod_self_right]
      exact Nat.mod_eq_of_lt (by omega)
    have hmore := hrest.le
    refine round_post_of_locate rfl (by omega) haddr (fun host hhost => ?_)
      fun f hnone hpast => ?_
    · refine ⟨consumed + c.copyAmount, hrest, ?_, ?_, ?_⟩
      · cases host with
        | none => exact hlocate
        | some pointer => exact hlocate
      · cases host with
        | none => exact hplaced
        | some pointer => exact hplaced
      · rw [take_slice, MemorySystem.writeBlock_append, hwrite, Option.bind_some, List.length_take,
          min_eq_left (by omega), ← hconsumed]
        rw [← hconsumed] at hhost hmod
        refine MemorySystem.writeBlock_inPage hplaced hhost ?_
        rw [List.length_take, List.length_drop]
        omega
    · rw [hlocate] at hnone
      refine ⟨MemorySystem.writeBlock_eq_none.mpr ⟨consumed, by omega, hnone⟩, ?_⟩
      rw [hpast, overruns_iff (by omega) (fun j hj hlost => ?_) hnone]
      rw [MemorySystem.writeBlock_eq_none.mpr ⟨j, by rw [List.length_take]; omega, hlost⟩] at hwrite
      cases hwrite

end Loops

/-! ## Tables that the mapping operations build -/

/-- Pages with memory have a pointer and the others have none, and nothing is mapped above the
address space of a process. -/
structure Linked (table : PageTable) : Prop where
  pointer : ∀ page, (table page).attributes = .memory ↔ (table page).pointer.getPtr ≠ 0
  high : ∀ page, maxPage ≤ page → (table page).attributes = .unmapped

theorem Linked.update {table : PageTable} (h : Linked table) {page : Nat} {entry : PageEntry}
    (hentry : entry.attributes = .memory ↔ entry.pointer.getPtr ≠ 0)
    (hhigh : maxPage ≤ page → entry.attributes = .unmapped) :
    Linked (Function.update table page entry) := by
  constructor
  · intro page'
    by_cases hpage : page' = page
    · rw [hpage, Function.update_self]
      exact hentry
    · rw [Function.update_of_ne hpage]
      exact h.pointer page'
  · intro page' hpage'
    by_cases hpage : page' = page
    · rw [hpage, Function.update_self]
      exact hhigh (hpage ▸ hpage')
    · rw [Function.update_of_ne hpage]
      exact h.high page' hpage'

theorem Linked.mapPages {isCached : Nat → Bool} {type : PageType} {table table' : PageTable}
    {base count : Nat} {memory : MemoryRef} (h : Linked table) (hbase : base + count ≤ maxPage)
    (htype : type = .memory ∧ memory.getPtr ≠ 0 ∨ type = .unmapped ∧ memory.getPtr = 0)
    (hmap : mapPages isCached type table base count memory = some table') : Linked table' := by
  induction count generalizing table base memory with
  | zero =>
      cases hmap
      exact h
  | succ count ih =>
      rw [Memory.mapPages] at hmap
      split at hmap
      · refine ih (h.update ?_ fun hhigh => by omega) (by omega) ?_ hmap
        · unfold pageEntry
          rcases htype with ⟨rfl, hptr⟩ | ⟨rfl, hptr⟩
          · split
            · exact iff_of_false (by simp) fun hne => hne rfl
            · exact iff_of_true rfl hptr
          · rw [if_neg fun hc => by cases hc.1]
            exact iff_of_false (by simp) fun hne => hne hptr
        · rcases htype with ⟨rfl, hptr⟩ | ⟨rfl, hptr⟩
          · refine .inl ⟨rfl, ?_⟩
            split
            · rename_i hadvance
              rw [MemoryRef.getPtr_plus hadvance.2]
              omega
            · exact hptr
          · refine .inr ⟨rfl, ?_⟩
            rw [if_neg fun hc => hc.1 hptr]
            exact hptr
      · cases hmap

theorem Linked.mark {table table' : PageTable} {page : Nat} {cached : Bool} {ref : MemoryRef}
    (h : Linked table) (href : ref.getPtr ≠ 0)
    (hmark : markPage table page cached ref = some table') : Linked table' := by
  unfold markPage at hmark
  have hlow : (table page).attributes ≠ .unmapped → ¬ maxPage ≤ page :=
    fun hne hhigh => hne (h.high page hhigh)
  cases hattributes : (table page).attributes with
  | unmapped =>
      rw [hattributes] at hmark
      cases hmark
      exact h
  | memory =>
      rw [hattributes] at hmark hlow
      cases cached with
      | false => cases hmark
      | true =>
          cases hmark
          exact h.update (iff_of_false nofun fun hne => hne rfl)
            fun hhigh => absurd hhigh (hlow nofun)
  | rasterizerCachedMemory =>
      rw [hattributes] at hmark hlow
      cases cached with
      | true => cases hmark
      | false =>
          cases hmark
          exact h.update (iff_of_true rfl href) fun hhigh => absurd hhigh (hlow nofun)

theorem Mapped.linked {m : MemorySystem} {table : PageTable} (h : Mapped m table) :
    Linked table ∧ m.Placed := by
  induction h with
  | clear hplugin =>
      exact ⟨⟨fun _ => iff_of_false nofun fun hne => hne rfl, fun _ _ => rfl⟩, .inl hplugin⟩
  | map isCached base count memory _ hbase hptr hmap ih =>
      exact ⟨ih.1.mapPages hbase (.inl ⟨rfl, hptr⟩) hmap, ih.2⟩
  | unmap isCached base count _ hbase hmap ih =>
      exact ⟨ih.1.mapPages hbase (.inr ⟨rfl, rfl⟩) hmap, ih.2⟩
  | mark page cached ref _ _ href hmark ih => exact ⟨ih.1.mark href hmark, ih.2⟩
  | plugin address _ haddress ih => exact ⟨ih.1, haddress⟩

/-! ## Mirrors -/

/-- The page of an address has no pointer, and the address is in the mirror of FCRAM or of the
registers. -/
def Mirrored (table : PageTable) (u : Nat) : Prop :=
  (table (u / pageSize)).pointer.getPtr = 0 ∧ 2 ^ 31 ≤ u ∧
    ((u - 2 ^ 31) / 2 ^ 28 = MemorySystem.fcramPaddr / 2 ^ 28 ∨
      (u - 2 ^ 31) / 2 ^ 28 = 1 ∧ ioAreaPaddr ≤ u - 2 ^ 31)

/-- Where a block access sees a byte. -/
def Target.ofPlace : Option Nat → Target
  | some pointer => .host pointer
  | none => .unmapped

section Mirrors

variable {m : MemorySystem} {table : PageTable} {u u' : Nat}

theorem Linked.target_eq (h : Linked table) (hu : u < 2 ^ 32) (hmirror : ¬ Mirrored table u) :
    target m table u = (m.locate table u).map Target.ofPlace := by
  have hpage : u / pageSize < pageTableNumEntries := by
    unfold pageSize pageTableNumEntries
    omega
  unfold target MemorySystem.locate
  rw [if_pos hpage]
  by_cases hpointer : (table (u / pageSize)).pointer.getPtr ≠ 0
  · rw [if_pos hpointer, (h.pointer _).mpr hpointer]
    rfl
  · rw [if_neg hpointer, if_neg fun hfcram => hmirror ⟨not_not.mp hpointer, hfcram.1, .inl hfcram.2⟩,
      if_neg fun hio => hmirror ⟨not_not.mp hpointer, hio.1, .inr hio.2⟩]
    cases hattributes : (table (u / pageSize)).attributes with
    | unmapped => rfl
    | memory => exact absurd ((h.pointer _).mp hattributes) hpointer
    | rasterizerCachedMemory =>
        dsimp only
        rw [Option.map_map]
        rfl

theorem Linked.locate_high (h : Linked table) (hu : u < 2 ^ 32) (hhigh : 2 ^ 31 ≤ u) :
    m.locate table u = some none := by
  have hpage : u / pageSize < pageTableNumEntries := by
    unfold pageSize pageTableNumEntries
    omega
  unfold MemorySystem.locate
  rw [if_pos hpage, h.high]
  unfold maxPage pageSize
  omega

theorem Mirrored.target (hmirror : Mirrored table u) :
    target m table u =
        some (.host (m.fcram.ptr + (u - 2 ^ 31 - MemorySystem.fcramPaddr))) ∧
        (u - 2 ^ 31) / 2 ^ 28 = MemorySystem.fcramPaddr / 2 ^ 28 ∨
      ∃ addr, Memory.target m table u = some (.register addr) := by
  obtain ⟨hpointer, hhigh, hwindow⟩ := hmirror
  unfold Memory.target
  rw [if_neg (not_not.mpr hpointer)]
  by_cases hfcram : (u - 2 ^ 31) / 2 ^ 28 = MemorySystem.fcramPaddr / 2 ^ 28
  · rw [if_pos ⟨hhigh, hfcram⟩]
    exact .inl ⟨rfl, hfcram⟩
  · rw [if_neg fun hc => hfcram hc.2, if_pos ⟨hhigh, hwindow.resolve_left hfcram⟩]
    exact .inr ⟨_, rfl⟩

theorem Linked.target_ne (h : Linked table) (hu : u < 2 ^ 32) (hu' : u' < 2 ^ 32) (hlt : u < u')
    (hhigh : 2 ^ 31 ≤ u)
    (hwindow : (u - 2 ^ 31) / 2 ^ 28 = MemorySystem.fcramPaddr / 2 ^ 28) :
    target m table u' ≠
      some (.host (m.fcram.ptr + (u - 2 ^ 31 - MemorySystem.fcramPaddr))) := by
  intro htarget
  by_cases hmirror : Mirrored table u'
  · rcases hmirror.target with ⟨hhost, hwindow'⟩ | ⟨addr, hregister⟩
    · rw [hhost] at htarget
      have hpointer := Target.host.inj (Option.some.inj htarget)
      unfold MemorySystem.fcramPaddr at *
      omega
    · rw [hregister] at htarget
      cases htarget
  · rw [h.target_eq hu' hmirror, h.locate_high hu' (by omega)] at htarget
    cases htarget

end Mirrors

/-! ## Blocks and single accesses -/

/-- `ReadBlock` stays in the page table and returns the bytes that `Read8` returns one by one,
whatever memory and the registers hold; or both abort. -/
def ReadBlockAgrees (m : MemorySystem) (table : PageTable) (v n : Nat) : Prop :=
  ∀ bytes gpu,
    (readBlock table v n { memory := { m with bytes } }).fault? ≠ some .outOfBounds ∧
      (readBlock table v n { memory := { m with bytes } }).state?.map
          (fun t => t.destBuffer.map UInt8.toNat) =
        (content m bytes gpu).readEach table v n

/-- `WriteBlock` stays in the page table and has the effect of writing its bytes one by one,
whatever memory and the registers hold. -/
def WriteBlockAgrees (m : MemorySystem) (table : PageTable) (v n : Nat) : Prop :=
  ∀ action bytes gpu data, data.length = n →
    (writeBlock table v data { memory := { m with bytes } }).fault? ≠ some .outOfBounds ∧
      SameEffect ((writeBlock table v data { memory := { m with bytes } }).state?.map
          fun t => ⟨t.memory, gpu⟩)
        ((content m bytes gpu).writeEach action table v data)

/-- Up to the first byte that aborts, the range lies below `2^32` and outside the mirrors. -/
def BlockWhole (m : MemorySystem) (table : PageTable) (v n : Nat) : Prop :=
  ∀ i < n, (∀ j < i, m.locate table (v + j) ≠ none) →
    v + i < 2 ^ 32 ∧ ¬ Mirrored table (v + i)

section Blocks

variable {m : MemorySystem} {table : PageTable} {v u i n : Nat} {bytes : Nat → UInt8} {gpu : GPU}
  {action : Nat → System → System}

theorem BlockWhole.head (h : BlockWhole m table u (n + 1)) : u < 2 ^ 32 ∧ ¬ Mirrored table u :=
  h 0 (Nat.succ_pos n) fun j hj => absurd hj (Nat.not_lt_zero j)

theorem BlockWhole.tail (h : BlockWhole m table u (n + 1)) (hfirst : m.locate table u ≠ none) :
    BlockWhole m table (u + 1) n := by
  intro i hi hfound
  have hnext := h (i + 1) (by omega) fun j hj => ?_
  · rwa [show u + 1 + i = u + (i + 1) by omega]
  · cases j with
    | zero => exact hfirst
    | succ j =>
        rw [show u + (j + 1) = u + 1 + j by omega]
        exact hfound j (by omega)

theorem add32_mod (u : Nat) : add32 (u % 2 ^ 32) 1 = (u + 1) % 2 ^ 32 := by
  unfold add32
  omega

theorem readBlock_readEach (h : Linked table) (hwhole : BlockWhole m table u n) :
    (({ m with bytes } : MemorySystem).readBlock table u n).map (List.map UInt8.toNat) =
      (content m bytes gpu).readEach table (u % 2 ^ 32) n := by
  induction n generalizing u with
  | zero => rfl
  | succ n ih =>
      obtain ⟨hu, hmirror⟩ := hwhole.head
      have htarget := h.target_eq (m := m) hu hmirror
      rw [MemorySystem.readBlock, System.readEach, add32_mod, Nat.mod_eq_of_lt hu,
        MemorySystem.readByte]
      change (((m.locate table u).map _).bind _).map _ = _
      cases hlocate : m.locate table u with
      | none =>
          rw [hlocate] at htarget
          rw [read8_abort htarget]
          rfl
      | some place =>
          rw [hlocate] at htarget
          have hread : (content m bytes gpu).read8 table u =
              some ((place.map bytes).getD 0).toNat := by
            cases place with
            | none => exact read8_unmapped htarget
            | some pointer => exact read8_host htarget
          have hrest := ih (hwhole.tail (by rw [hlocate]; simp))
          rw [hread]
          change _ = ((content m bytes gpu).readEach table ((u + 1) % 2 ^ 32) n).bind _
          rw [← hrest]
          change (((({ m with bytes } : MemorySystem).readBlock table (u + 1) n)).bind _).map _ = _
          cases ({ m with bytes } : MemorySystem).readBlock table (u + 1) n with
          | none => rfl
          | some rest => rfl

theorem writeBlock_writeEach (action : Nat → System → System) {s : System} {data : List UInt8}
    (h : Linked table)
    (hwhole : BlockWhole s.memory table u data.length) :
    (s.memory.writeBlock table u data).map (fun m' => (⟨m', s.gpu⟩ : System)) =
      s.writeEach action table (u % 2 ^ 32) data := by
  induction data generalizing s u with
  | nil => rfl
  | cons value rest ih =>
      obtain ⟨hu, hmirror⟩ := hwhole.head
      have htarget := h.target_eq (m := s.memory) hu hmirror
      rw [MemorySystem.writeBlock, System.writeEach, add32_mod, Nat.mod_eq_of_lt hu,
        MemorySystem.writeByte]
      cases hlocate : s.memory.locate table u with
      | none =>
          rw [hlocate] at htarget
          rw [write8_abort htarget]
          rfl
      | some place =>
          rw [hlocate] at htarget
          have htail := hwhole.tail (by rw [hlocate]; simp)
          cases place with
          | none =>
              rw [write8_unmapped htarget]
              exact ih htail
          | some pointer =>
              rw [write8_host htarget]
              refine Eq.trans ?_ (ih (s := s.with pointer [value]) htail)
              rw [System.with, ← MemorySystem.update_eq_store]
              rfl

theorem overruns_readBlock (h : m.Overruns table u n) : m.readBlock table u n = none := by
  obtain ⟨i, hi, hpast, -⟩ := h
  exact MemorySystem.readBlock_eq_none.mpr ⟨i, hi, MemorySystem.locate_past hpast⟩

theorem overruns_writeBlock {data : List UInt8} (h : m.Overruns table u data.length) :
    m.writeBlock table u data = none := by
  obtain ⟨i, hi, hpast, -⟩ := h
  exact MemorySystem.writeBlock_eq_none.mpr ⟨i, hi, MemorySystem.locate_past hpast⟩

theorem readBlock_result (hm : m.Placed) :
    (readBlock table v n { memory := m }).state?.map BlockState.destBuffer =
        m.readBlock table v n ∧
      ((readBlock table v n { memory := m }).fault? = some .outOfBounds ↔
        m.Overruns table v n) := by
  have hpost := @readBlock_bytes table v n m hm
  unfold Exec.Post at hpost
  cases hend : readBlock table v n { memory := m } with
  | value a t =>
      rw [hend] at hpost
      refine ⟨hpost.symm, iff_of_false nofun fun hover => ?_⟩
      rw [overruns_readBlock hover] at hpost
      cases hpost
  | error e t => exact e.elim
  | fault f =>
      rw [hend] at hpost
      exact ⟨hpost.1.symm, Option.some_inj.trans hpost.2⟩

theorem writeBlock_result (hm : m.Placed) (data : List UInt8) :
    (writeBlock table v data { memory := m }).state?.map BlockState.memory =
        m.writeBlock table v data ∧
      ((writeBlock table v data { memory := m }).fault? = some .outOfBounds ↔
        m.Overruns table v data.length) := by
  have hpost := @writeBlock_bytes table v m hm data
  unfold Exec.Post at hpost
  cases hend : writeBlock table v data { memory := m } with
  | value a t =>
      rw [hend] at hpost
      refine ⟨hpost.symm, iff_of_false nofun fun hover => ?_⟩
      rw [overruns_writeBlock hover] at hpost
      cases hpost
  | error e t => exact e.elim
  | fault f =>
      rw [hend] at hpost
      exact ⟨hpost.1.symm, Option.some_inj.trans hpost.2⟩

theorem Linked.locate_rest (h : Linked table) (hover : ¬ m.Overruns table v n)
    (hfound : ∀ j < i, m.locate table (v + j) ≠ none) (hhigh : 2 ^ 31 ≤ v + i) :
    ∀ j < n, i ≤ j → v + j < 2 ^ 32 ∧ m.locate table (v + j) = some none := by
  intro j hj hij
  induction j using Nat.strong_induction_on with
  | _ j ih =>
      have hlow : v + j < 2 ^ 32 := by
        by_contra hpast
        refine hover ⟨j, hj, not_lt.mp hpast, fun k hk => ?_⟩
        by_cases hki : k < i
        · exact hfound k hki
        · rw [(ih k hk (by omega) (by omega)).2]
          nofun
      exact ⟨hlow, h.locate_high hlow (by omega)⟩

theorem Linked.found (h : Linked table) (hover : ¬ m.Overruns table v n)
    (hfound : ∀ j < i, m.locate table (v + j) ≠ none) (hhigh : 2 ^ 31 ≤ v + i) :
    ∀ j < n, m.locate table (v + j) ≠ none := by
  intro j hj
  by_cases hji : j < i
  · exact hfound j hji
  · rw [(h.locate_rest hover hfound hhigh j hj (by omega)).2]
    nofun

theorem readBlock_getElem? {buffer : List UInt8} (h : m.readBlock table u n = some buffer)
    (hi : i < n) : buffer[i]? = m.readByte table (u + i) := by
  induction n generalizing u i buffer with
  | zero => exact absurd hi (Nat.not_lt_zero i)
  | succ n ih =>
      obtain ⟨value, hvalue, h⟩ := Option.bind_eq_some_iff.mp h
      obtain ⟨rest, hrest, h⟩ := Option.bind_eq_some_iff.mp h
      cases h
      cases i with
      | zero => rw [List.getElem?_cons_zero, Nat.add_zero, hvalue]
      | succ i =>
          rw [List.getElem?_cons_succ, ih hrest (by omega)]
          congr 1
          omega

theorem BlockWhole.not_overruns (h : BlockWhole m table v n) : ¬ m.Overruns table v n := by
  rintro ⟨i, hi, hpast, hfound⟩
  have hlow := (h i hi hfound).1
  omega

theorem readBlockAgrees_iff (h : Linked table) (hm : m.Placed) (hv : v < 2 ^ 32) :
    ReadBlockAgrees m table v n ↔ BlockWhole m table v n := by
  have hend : ∀ bytes, (readBlock table v n { memory := { m with bytes } }).state?.map
      (fun t => t.destBuffer.map UInt8.toNat) =
        (({ m with bytes } : MemorySystem).readBlock table v n).map (List.map UInt8.toNat) := by
    intro bytes
    rw [← (readBlock_result (m := { m with bytes }) hm).1, Option.map_map]
    rfl
  constructor
  · intro hagrees i hi hfound
    have hover : ¬ m.Overruns table v n := fun hover =>
      (hagrees m.bytes ⟨fun _ => 0, fun _ => 0⟩).1 ((readBlock_result hm).2.mpr hover)
    have hlow : v + i < 2 ^ 32 := by
      by_contra hpast
      exact hover ⟨i, hi, not_lt.mp hpast, hfound⟩
    refine ⟨hlow, fun hmirror => ?_⟩
    have hplace := (h.locate_rest hover hfound hmirror.2.1 i hi le_rfl).2
    have hzero : ∀ bytes gpu, (content m bytes gpu).read8 table (v + i) = some 0 := by
      intro bytes gpu
      have hread := (hagrees bytes gpu).2
      rw [hend] at hread
      cases hbuffer : ({ m with bytes } : MemorySystem).readBlock table v n with
      | none =>
          obtain ⟨j, hj, hlost⟩ := MemorySystem.readBlock_eq_none.mp hbuffer
          exact absurd hlost (h.found hover hfound hmirror.2.1 j hj)
      | some buffer =>
          rw [hbuffer, Option.map_some] at hread
          have hbyte := ((readEach_eq_some hv).mp hread.symm).2 i hi
          rw [add32_of_lt hlow, List.getElem?_map, readBlock_getElem? hbuffer hi] at hbyte
          rw [hbyte, MemorySystem.readByte]
          change Option.map _ (Option.map _ (m.locate table (v + i))) = _
          rw [hplace]
          rfl
    have hunmapped := target_eq_unmapped hzero
    rcases hmirror.target with ⟨hhost, -⟩ | ⟨addr, hregister⟩
    · rw [hhost] at hunmapped
      cases hunmapped
    · rw [hregister] at hunmapped
      cases hunmapped
  · intro hwhole bytes gpu
    refine ⟨fun hout => ?_, ?_⟩
    · exact hwhole.not_overruns ((readBlock_result (m := { m with bytes }) hm).2.mp hout)
    · rw [hend, readBlock_readEach h hwhole, Nat.mod_eq_of_lt hv]

/-! ### What writes leave alone -/

theorem target_of_writeEach {s t : System} {data : List UInt8}
    (h : s.writeEach action table v data = some t) (table' : PageTable) (u' : Nat) :
    target t.memory table' u' = target s.memory table' u' := by
  induction data generalizing s v with
  | nil =>
      cases h
      rfl
  | cons value rest ih =>
      obtain ⟨s', hs', hrest⟩ := Option.bind_eq_some_iff.mp h
      rw [ih hrest, (target_of_write8 hs').2]

theorem writeEach_frame {s t : System} {data : List UInt8} {pointer : Nat} (hv : v < 2 ^ 32)
    (hout : ∀ i < data.length, target s.memory table (add32 v i) ≠ some (.host pointer))
    (h : s.writeEach action table v data = some t) :
    t.memory.bytes pointer = s.memory.bytes pointer := by
  induction data generalizing s v with
  | nil =>
      cases h
      rfl
  | cons value rest ih =>
      obtain ⟨s', hs', hrest⟩ := Option.bind_eq_some_iff.mp h
      have hfirst := hout 0 (Nat.succ_pos _)
      rw [add32_zero hv] at hfirst
      obtain ⟨hplace, hlayout⟩ := target_of_write8 hs'
      have hlater : t.memory.bytes pointer = s'.memory.bytes pointer := by
        refine ih (add32_lt v 1) (fun i hi => ?_) hrest
        rw [hlayout, add32_add32]
        exact hout (i + 1) (by simpa using hi)
      rw [hlater]
      rcases hplace with hunmapped | ⟨q, hhost⟩
      · rw [write8_unmapped hunmapped] at hs'
        cases hs'
        rfl
      · rw [write8_host hhost] at hs'
        cases hs'
        have hne : pointer ≠ q := fun heq => hfirst (heq ▸ hhost)
        refine MemorySystem.store_outside _ _ _ ?_
        rw [List.length_singleton]
        omega

theorem target_of_writeBlock {m' : MemorySystem} {data : List UInt8}
    (h : m.writeBlock table u data = some m') (table' : PageTable) (u' : Nat) :
    target m' table' u' = target m table' u' := by
  induction data generalizing m u with
  | nil =>
      cases h
      rfl
  | cons value rest ih =>
      obtain ⟨m'', hm'', hrest⟩ := Option.bind_eq_some_iff.mp h
      rw [ih hrest]
      obtain ⟨place, -, rfl⟩ := Option.map_eq_some_iff.mp hm''
      cases place with
      | none => rfl
      | some pointer => rfl

/-- A host byte holding zero to which only zeros are written still holds zero. -/
theorem writeBlock_zero {m' : MemorySystem} {data : List UInt8} {pointer : Nat}
    (hzero : m.bytes pointer = 0)
    (hdata : ∀ i < data.length, m.locate table (u + i) = some (some pointer) → data[i]? = some 0)
    (h : m.writeBlock table u data = some m') : m'.bytes pointer = 0 := by
  induction data generalizing m u with
  | nil =>
      cases h
      exact hzero
  | cons value rest ih =>
      obtain ⟨m'', hm'', hrest⟩ := Option.bind_eq_some_iff.mp h
      have hlocate := MemorySystem.locate_writeByte hm''
      refine ih ?_ (fun i hi hplace => ?_) hrest
      · obtain ⟨place, hplace, rfl⟩ := Option.map_eq_some_iff.mp hm''
        cases place with
        | none => exact hzero
        | some q =>
            dsimp only
            by_cases hq : pointer = q
            · have hvalue := hdata 0 (Nat.succ_pos _) (hq ▸ hplace)
              rw [hq, Function.update_self]
              exact Option.some.inj hvalue
            · rw [Function.update_of_ne hq]
              exact hzero
      · rw [hlocate, show u + 1 + i = u + (i + 1) by omega] at hplace
        exact hdata (i + 1) (by simpa using hi) hplace

/-- The block that is zero but for a one at `i`. -/
def singleOne (i n : Nat) : List UInt8 := List.replicate i 0 ++ 1 :: List.replicate (n - i - 1) 0

theorem length_singleOne (hi : i < n) : (singleOne i n).length = n := by
  unfold singleOne
  simp only [List.length_append, List.length_replicate, List.length_cons]
  omega

theorem singleOne_getElem? {j : Nat} (hj : j < n) (hne : j ≠ i) : (singleOne i n)[j]? = some 0 := by
  unfold singleOne
  by_cases hlt : j < i
  · rw [List.getElem?_append_left (by rwa [List.length_replicate]), List.getElem?_replicate,
      if_pos hlt]
  · rw [List.getElem?_append_right (by rw [List.length_replicate]; omega), List.length_replicate,
      show j - i = j - i - 1 + 1 by omega, List.getElem?_cons_succ, List.getElem?_replicate,
      if_pos (by omega)]

theorem writeEach_singleOne {t : System} {pointer : Nat}
    (hv : v < 2 ^ 32) (hn : v + n ≤ 2 ^ 32) (hi : i < n)
    (hhost : target m table (v + i) = some (.host pointer))
    (hlater : ∀ u, v + i < u → u < 2 ^ 32 → target m table u ≠ some (.host pointer))
    (hwrite : (content m bytes gpu).writeEach action table v (singleOne i n) = some t) :
    t.memory.bytes pointer = 1 := by
  rw [singleOne, writeEach_append _ _ hv, List.length_replicate, add32_of_lt (by omega)] at hwrite
  obtain ⟨front, hfront, hback⟩ := Option.bind_eq_some_iff.mp hwrite
  have hlayout := target_of_writeEach hfront
  rw [System.writeEach, write8_host ((hlayout table (v + i)).trans hhost)] at hback
  have hframe : t.memory.bytes pointer = (front.with pointer [1]).memory.bytes pointer := by
    refine writeEach_frame (add32_lt (v + i) 1) (fun j hj => ?_) hback
    rw [List.length_replicate] at hj
    rw [target_with, hlayout, add32_add32, add32_of_lt (by omega)]
    exact hlater (v + i + (j + 1)) (by omega) (by omega)
  rw [hframe]
  exact MemorySystem.store_inside (i := 0) _ _ _ rfl

theorem writeBlockAgrees_iff (h : Linked table) (hm : m.Placed) (hv : v < 2 ^ 32) :
    WriteBlockAgrees m table v n ↔ BlockWhole m table v n := by
  have hend : ∀ bytes gpu data, (writeBlock table v data { memory := { m with bytes } }).state?.map
      (fun t => (⟨t.memory, gpu⟩ : System)) =
        (({ m with bytes } : MemorySystem).writeBlock table v data).map fun m' => ⟨m', gpu⟩ := by
    intro bytes gpu data
    rw [← (writeBlock_result (m := { m with bytes }) hm data).1, Option.map_map]
    rfl
  constructor
  · intro hagrees i hi hfound
    have hlength := length_singleOne hi
    have hover : ¬ m.Overruns table v n := by
      intro hover
      refine (hagrees (fun _ s => s) m.bytes ⟨fun _ => 0, fun _ => 0⟩ (singleOne i n) hlength).1 ?_
      exact (writeBlock_result hm _).2.mpr (hlength.symm ▸ hover)
    have hlow : v + i < 2 ^ 32 := by
      by_contra hpast
      exact hover ⟨i, hi, not_lt.mp hpast, hfound⟩
    refine ⟨hlow, fun hmirror => ?_⟩
    have hhigh := hmirror.2.1
    have hrest := h.locate_rest hover hfound hhigh
    have hlast := (hrest (n - 1) (by omega) (by omega)).1
    have heffect := (hagrees (fun _ s => s) (fun _ => 0) ⟨fun _ => 0, fun _ => 0⟩ (singleOne i n)
      hlength).2
    rw [hend] at heffect
    cases hblock : ({ m with bytes := fun _ => 0 } : MemorySystem).writeBlock table v (singleOne i n) with
    | none =>
        obtain ⟨j, hj, hlost⟩ := MemorySystem.writeBlock_eq_none.mp hblock
        exact absurd hlost (h.found hover hfound hhigh j (hlength ▸ hj))
    | some m' =>
        rw [hblock] at heffect
        obtain ⟨t, ht, hsame⟩ := heffect.returns
        have hreached := targets_of_writeEach hv ht i (hlength.symm ▸ hi)
        rw [add32_of_lt hlow, target_content] at hreached
        rcases hmirror.target (m := m) with ⟨hhost, hwindow⟩ | ⟨addr, hregister⟩
        · have hlater : ∀ u, v + i < u → u < 2 ^ 32 → target m table u ≠
              some (.host (m.fcram.ptr + (v + i - 2 ^ 31 - MemorySystem.fcramPaddr))) :=
            fun u hlt hu => h.target_ne hlow hu hlt hhigh hwindow
          generalize m.fcram.ptr + (v + i - 2 ^ 31 - MemorySystem.fcramPaddr) = pointer
            at hhost hlater
          have hone := writeEach_singleOne hv (by omega) hi hhost hlater ht
          have hzero : m'.bytes pointer = 0 := writeBlock_zero rfl (fun j hj hplace => ?_) hblock
          · have hbyte := hsame.bytes_eq ((target_of_writeBlock hblock table (v + i)).trans hhost)
              ((target_of_writeEach ht table (v + i)).trans hhost)
            rw [hone] at hbyte
            exact absurd (hbyte.symm.trans hzero) (by decide)
          · rw [hlength] at hj
            refine singleOne_getElem? hj fun hji => ?_
            rw [hji] at hplace
            have hnone := (hrest i hi le_rfl).2
            exact absurd (hplace.symm.trans hnone) nofun
        · rw [hregister] at hreached
          rcases hreached with hunmapped | ⟨pointer, hhost⟩
          · cases hunmapped
          · cases hhost
  · intro hwhole action bytes gpu data hdata
    refine ⟨fun hout => ?_, ?_⟩
    · refine hwhole.not_overruns (hdata ▸ ?_)
      exact (writeBlock_result (m := { m with bytes }) hm data).2.mp hout
    · have heach := writeBlock_writeEach action (s := content m bytes gpu) h
        (hdata.symm ▸ hwhole)
      rw [Nat.mod_eq_of_lt hv] at heach
      rw [hend, ← heach]
      exact SameEffect.refl _

end Blocks

/-! ## Agreement -/

/-- Exactly when the wide accesses and the block accesses at an address agree with single ones. -/
theorem accesses_agree_iff {m : MemorySystem} {table : PageTable} (h : Mapped m table) {v : Nat}
    (hv : v < 2 ^ 32) :
    (∀ width ∈ [2, 4, 8], (ReadAgrees m table width v ↔ ReadWhole m table width v) ∧
      (WriteAgrees m table width v ↔ WriteWhole m table width v)) ∧
    ∀ n, (ReadBlockAgrees m table v n ↔ BlockWhole m table v n) ∧
      (WriteBlockAgrees m table v n ↔ BlockWhole m table v n) := by
  obtain ⟨hlinked, hplaced⟩ := h.linked
  constructor
  · intro width hwidth
    have hbounds : 2 ≤ width ∧ width ≤ 8 := by
      rw [List.mem_cons, List.mem_cons, List.mem_singleton] at hwidth
      omega
    exact ⟨readAgrees_iff hplaced hv hbounds.1 (hbounds.2.trans (by decide)),
      writeAgrees_iff hplaced hv hbounds.1 hbounds.2⟩
  · intro n
    exact ⟨readBlockAgrees_iff hlinked hplaced hv, writeBlockAgrees_iff hlinked hplaced hv⟩

/-- Two pages next to each other in guest memory and apart in host memory. -/
def splitTable : PageTable :=
  Function.update (Function.update PageTable.clear 0x100 ⟨.memory, ⟨some ⟨0x1000, 0x1000⟩, 0⟩⟩)
    0x101 ⟨.memory, ⟨some ⟨0x10000, 0x1000⟩, 0⟩⟩

/-- Host memory that holds ones from the second page on. -/
def splitMemory : MemorySystem :=
  ⟨fun q => if q < 0x10000 then 0 else 1, ⟨0x100000, 0x8000000⟩, ⟨0x9000000, 0x600000⟩, 0⟩

theorem splitTable_mapped : Mapped splitMemory splitTable := by
  have hfirst : Mapped splitMemory
      (Function.update PageTable.clear 0x100 ⟨.memory, ⟨some ⟨0x1000, 0x1000⟩, 0⟩⟩) :=
    .map (fun _ => false) 0x100 1 ⟨some ⟨0x1000, 0x1000⟩, 0⟩ (.clear rfl) (by decide) (by decide) rfl
  exact .map (fun _ => false) 0x101 1 ⟨some ⟨0x10000, 0x1000⟩, 0⟩ hfirst (by decide) (by decide) rfl

theorem accesses_agree_iff_split :
    (∀ width ∈ [2, 4, 8],
      (ReadAgrees splitMemory splitTable width 0x100FFE ↔
        ReadWhole splitMemory splitTable width 0x100FFE) ∧
      (WriteAgrees splitMemory splitTable width 0x100FFE ↔
        WriteWhole splitMemory splitTable width 0x100FFE)) ∧
    ∀ n, (ReadBlockAgrees splitMemory splitTable 0x100FFE n ↔
        BlockWhole splitMemory splitTable 0x100FFE n) ∧
      (WriteBlockAgrees splitMemory splitTable 0x100FFE n ↔
        BlockWhole splitMemory splitTable 0x100FFE n) :=
  accesses_agree_iff splitTable_mapped (by decide)

/-- A wide read across the two pages does not read the second one. -/
theorem read32_misses_next_page :
    ¬ ∀ m table, Mapped m table → ∀ v < 2 ^ 32, ReadAgrees m table 4 v := by
  intro h
  have hagrees := h splitMemory splitTable splitTable_mapped 0x100FFE (by decide)
    splitMemory.bytes ⟨fun _ => 0, fun _ => 0⟩
  have hwide : (content splitMemory splitMemory.bytes ⟨fun _ => 0, fun _ => 0⟩).read
      splitTable 4 0x100FFE = some 0 := by decide
  have hsingle : (content splitMemory splitMemory.bytes ⟨fun _ => 0, fun _ => 0⟩).readEach
      splitTable 0x100FFE 4 = some [0, 0, 1, 1] := by decide
  rw [hwide, hsingle] at hagrees
  exact absurd hagrees (by decide)

/-- Each byte of the range is in host memory, and no two of them are the same. -/
def Unshared (m : MemorySystem) (table : PageTable) (v n : Nat) (place : Nat → Nat) : Prop :=
  ∀ i < n, m.locate table (v + i) = some (some (place i)) ∧ ∀ j < i, place j ≠ place i

theorem writeBlock_unshared {m' : MemorySystem} {data : List UInt8} {place : Nat → Nat}
    (h : Unshared m table v data.length place)
    (hw : m.writeBlock table v data = some m') :
    m'.locate = m.locate ∧ (m.Placed → m'.Placed) ∧
      ∀ i < data.length, data[i]? = some (m'.bytes (place i)) := by
  induction data using List.reverseRecOn generalizing m' with
  | nil => exact Option.some.inj hw ▸ ⟨rfl, id, fun i hi => absurd hi (Nat.not_lt_zero i)⟩
  | append_singleton front value ih =>
      rw [List.length_append, List.length_singleton] at h ⊢
      rw [MemorySystem.writeBlock_append] at hw
      obtain ⟨m₁, hfront, hlast⟩ := Option.bind_eq_some_iff.mp hw
      obtain ⟨hlocate, hplaced, hbytes⟩ := ih (fun i hi => h i (by omega)) hfront
      obtain ⟨hat, hne⟩ := h front.length (by omega)
      obtain rfl : { m₁ with bytes := Function.update m₁.bytes (place front.length) value } = m' := by
        simpa [MemorySystem.writeBlock, MemorySystem.writeByte, hlocate, hat] using hlast
      refine ⟨hlocate, hplaced, fun i hi => ?_⟩
      dsimp only
      rcases Nat.lt_succ_iff_lt_or_eq.mp hi with hi | rfl
      · rw [Function.update_of_ne (hne i hi), List.getElem?_append_left hi, hbytes i hi]
      · rw [Function.update_self, List.getElem?_concat_length]

theorem length_of_readBlock {m : MemorySystem} {table : PageTable} {u n : Nat} {buffer : List UInt8}
    (h : m.readBlock table u n = some buffer) : buffer.length = n := by
  induction n generalizing u buffer with
  | zero => exact Option.some.inj h ▸ rfl
  | succ n ih =>
      obtain ⟨value, -, h⟩ := Option.bind_eq_some_iff.mp h
      obtain ⟨rest, hrest, h⟩ := Option.bind_eq_some_iff.mp h
      cases h
      exact congrArg (· + 1) (ih hrest)

/-- `ReadBlock` returns what `WriteBlock` has written, if no two of the bytes are the same. -/
theorem readBlock_writeBlock {m : MemorySystem} {table : PageTable} (hm : Mapped m table) {v : Nat}
    {data : List UInt8} (place : Nat → Nat) (h : Unshared m table v data.length place) :
    (writeBlock table v data).Post { memory := m }
      (fun _ t => (readBlock table v data.length).Post { memory := t.memory }
        (fun _ t' => t'.destBuffer = data) (fun _ _ => False) (fun _ => False))
      (fun _ _ => False) (fun _ => False) := by
  have hfound : ∀ i < data.length, m.locate table (v + i) ≠ none := fun i hi => by
    rw [(h i hi).1]
    exact nofun
  refine (writeBlock_bytes hm.linked.2 data).mono (fun _ t hw => ?_) (fun _ _ h => h) ?_
  · obtain ⟨hlocate, hplaced, hbytes⟩ := writeBlock_unshared h hw
    refine (readBlock_bytes (hplaced hm.linked.2)).mono (fun _ t' hr => ?_) (fun _ _ h => h) ?_
    · have hlength := length_of_readBlock hr
      refine List.ext_getElem? fun i => ?_
      by_cases hi : i < data.length
      · rw [readBlock_getElem? hr hi, hbytes i hi, MemorySystem.readByte, hlocate, (h i hi).1]
        rfl
      · rw [List.getElem?_eq_none (by omega), List.getElem?_eq_none (by omega)]
    · rintro f ⟨hnone, -⟩
      obtain ⟨i, hi, hlost⟩ := MemorySystem.readBlock_eq_none.mp hnone
      exact hfound i hi (hlocate ▸ hlost)
  · rintro f ⟨hnone, -⟩
    obtain ⟨i, hi, hlost⟩ := MemorySystem.writeBlock_eq_none.mp hnone
    exact hfound i hi hlost

theorem readBlock_writeBlock_split :
    (writeBlock splitTable 0x100FFE [1, 2, 3, 4]).Post { memory := splitMemory }
      (fun _ t => (readBlock splitTable 0x100FFE 4).Post { memory := t.memory }
        (fun _ t' => t'.destBuffer = [1, 2, 3, 4]) (fun _ _ => False) (fun _ => False))
      (fun _ _ => False) (fun _ => False) :=
  readBlock_writeBlock splitTable_mapped
    (fun i => if i < 2 then 0x1FFE + i else 0xFFFE + i) (by unfold Unshared; decide)

end Cytrus.Memory
