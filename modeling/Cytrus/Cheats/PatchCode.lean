import Cytrus.Cheats.GatewayCheat

/-!
# The patch code

`PatchOp` copies the bytes of the lines after its own to memory: words first,
then the bytes that are left. It takes the two halves of a line in turn. What
it writes is stated once as calls to write words and bytes, for any platform,
and once as the bytes of a memory that stores them little-endian.
-/

namespace Cytrus.Cheats

variable {μ : Type*}

/-! ## Bytes and memory -/

/-- The bytes of a word, the low one first. -/
def leBytes (v : UInt32) : List UInt8 :=
  [v.toUInt8, (v >>> 8).toUInt8, (v >>> 16).toUInt8, (v >>> 24).toUInt8]

@[simp] theorem length_leBytes (v : UInt32) : (leBytes v).length = 4 := rfl

/-- The word of four bytes. -/
def wordOf (b₀ b₁ b₂ b₃ : UInt8) : UInt32 :=
  UInt32.ofNat (b₀.toNat + 256 * b₁.toNat + 65536 * b₂.toNat + 16777216 * b₃.toNat)

theorem wordOf_leBytes (v : UInt32) :
    wordOf v.toUInt8 (v >>> 8).toUInt8 (v >>> 16).toUInt8 (v >>> 24).toUInt8 = v := by
  have hv := v.toNat_lt
  apply UInt32.toNat_inj.mp
  simp [wordOf, Nat.shiftRight_eq_div_pow]
  omega

theorem leBytes_wordOf (b₀ b₁ b₂ b₃ : UInt8) : leBytes (wordOf b₀ b₁ b₂ b₃) = [b₀, b₁, b₂, b₃] := by
  have h₀ := b₀.toNat_lt
  have h₁ := b₁.toNat_lt
  have h₂ := b₂.toNat_lt
  have h₃ := b₃.toNat_lt
  simp only [leBytes, wordOf, List.cons.injEq, and_true, ← UInt8.toNat_inj]
  simp [Nat.shiftRight_eq_div_pow]
  omega

/-- Write bytes from an address on: words while there are four bytes, then single bytes. -/
def writeBytes (platform : Platform μ) : List UInt8 → UInt32 → μ → μ
  | b₀ :: b₁ :: b₂ :: b₃ :: rest, addr, memory =>
      writeBytes platform rest (addr + 4) (platform.write32 memory addr (wordOf b₀ b₁ b₂ b₃))
  | b :: rest, addr, memory =>
      writeBytes platform rest (addr + 1) (platform.write8 memory addr b)
  | [], _, memory => memory

/-- A memory with bytes laid over it from an address on. -/
def overlay (bytes : List UInt8) (addr : UInt32) (memory : UInt32 → UInt8) : UInt32 → UInt8 :=
  fun x => bytes[(x - addr).toNat]?.getD (memory x)

/-- The writes of the platform store their bytes, seen through `look`. -/
structure Platform.StoresBytes (platform : Platform μ) (look : μ → UInt32 → UInt8) : Prop where
  write8 : ∀ m addr v, look (platform.write8 m addr v) = overlay [v] addr (look m)
  write32 : ∀ m addr v, look (platform.write32 m addr v) = overlay (leBytes v) addr (look m)
  invalidateCacheRange : ∀ m addr size, look (platform.invalidateCacheRange m addr size) = look m

theorem overlay_append (xs ys : List UInt8) (addr : UInt32) (memory : UInt32 → UInt8)
    (h : xs.length + ys.length ≤ 2 ^ 32) :
    overlay (xs ++ ys) addr memory =
      overlay ys (addr + UInt32.ofNat xs.length) (overlay xs addr memory) := by
  funext x
  have hx := (x - addr).toNat_lt
  have haddr := addr.toNat_lt
  have hsub : (x - (addr + UInt32.ofNat xs.length)).toNat =
      ((x - addr).toNat + (2 ^ 32 - xs.length % 2 ^ 32)) % 2 ^ 32 := by
    rw [UInt32.toNat_sub, UInt32.toNat_sub, UInt32.toNat_add, UInt32.toNat_ofNat']
    omega
  unfold overlay
  by_cases hlt : (x - addr).toNat < xs.length
  · rw [List.getElem?_append_left hlt, hsub]
    have hys : ys[((x - addr).toNat + (2 ^ 32 - xs.length % 2 ^ 32)) % 2 ^ 32]? = none := by
      apply List.getElem?_eq_none
      omega
    have hxs := List.getElem?_eq_getElem hlt
    rw [hys, hxs]
    rfl
  · have hxs : xs[(x - addr).toNat]? = none := List.getElem?_eq_none (by omega)
    rw [List.getElem?_append_right (by omega), hsub, hxs]
    congr 2
    omega

theorem look_writeBytes {platform : Platform μ} {look : μ → UInt32 → UInt8}
    (h : platform.StoresBytes look) (bytes : List UInt8) (addr : UInt32) (memory : μ)
    (hlength : bytes.length ≤ 2 ^ 32) :
    look (writeBytes platform bytes addr memory) = overlay bytes addr (look memory) := by
  fun_induction writeBytes platform bytes addr memory with
  | case1 b₀ b₁ b₂ b₃ rest addr memory ih =>
      simp only [List.length_cons] at hlength
      rw [ih (by omega), h.write32, leBytes_wordOf]
      exact (overlay_append [b₀, b₁, b₂, b₃] rest addr _ (by simp; omega)).symm
  | case2 b rest addr memory _ ih =>
      simp only [List.length_cons] at hlength
      rw [ih (by omega), h.write8]
      exact (overlay_append [b] rest addr _ (by simp; omega)).symm
  | case3 addr memory =>
      funext x
      simp [overlay]

theorem writeBytes_leBytes (platform : Platform μ) (v : UInt32) (rest : List UInt8)
    (addr : UInt32) (memory : μ) :
    writeBytes platform (leBytes v ++ rest) addr memory =
      writeBytes platform rest (addr + 4) (platform.write32 memory addr v) := by
  simp only [leBytes, List.cons_append, List.nil_append, writeBytes, wordOf_leBytes]

theorem writeBytes_cons (platform : Platform μ) (b : UInt8) {rest : List UInt8}
    (h : rest.length < 3) (addr : UInt32) (memory : μ) :
    writeBytes platform (b :: rest) addr memory =
      writeBytes platform rest (addr + 1) (platform.write8 memory addr b) := by
  match rest, h with
  | [], _ => rfl
  | [_], _ => rfl
  | [_, _], _ => rfl

theorem getElem?_leBytes (v : UInt32) {j : Nat} (hj : j < 4) :
    (leBytes v)[j]? = some (v >>> UInt32.ofNat (8 * j)).toUInt8 := by
  match j, hj with
  | 0, _ => simp [leBytes]
  | 1, _ => rfl
  | 2, _ => rfl
  | 3, _ => rfl

/-! ## The loops -/

section Loops

variable {platform : Platform μ} {lines : List Instruction} {line : Instruction} {m : Machine μ}

/-- The words of the lines in the order in which they are taken. -/
def patchWords (lines : List Instruction) : List UInt32 :=
  lines.flatMap fun line => [line.first, line.value]

theorem getElem?_patchWords (lines : List Instruction) (i : Nat) :
    (patchWords lines)[i]? =
      lines[i / 2]?.map fun line => if i % 2 = 0 then line.first else line.value := by
  induction lines generalizing i with
  | nil => simp [patchWords]
  | cons line rest ih =>
      match i with
      | 0 => rfl
      | 1 => rfl
      | i + 2 =>
          have hdiv : (i + 2) / 2 = i / 2 + 1 := by omega
          rw [hdiv, List.getElem?_cons_succ, Nat.add_mod_right, ← ih]
          rfl

/-- The state in which the first loop starts. -/
def patchStart (platform : Platform μ) (line : Instruction) (m : Machine μ) : PatchState μ where
  numBytes := line.value.toNat
  addr := line.address + m.state.offset
  currentLineNr :=
    if 0 < line.value.toNat then m.state.currentLineNr + 1 else m.state.currentLineNr
  memory := platform.invalidateCacheRange m.memory (line.address + m.state.offset) line.value

/-- The state after so many words. -/
def afterWords (platform : Platform μ) (lines : List Instruction) (line : Instruction)
    (m : Machine μ) (i : Nat) : PatchState μ :=
  (PatchState.word platform lines)^[i] (patchStart platform line m)

/-- The state after all words and so many bytes. -/
def afterBytes (platform : Platform μ) (lines : List Instruction) (line : Instruction)
    (m : Machine μ) (j : Nat) : PatchState μ :=
  (PatchState.byte platform lines)^[j]
    (afterWords platform lines line m (line.value.toNat / 4))

theorem afterWords_succ (i : Nat) : afterWords platform lines line m (i + 1) =
    (afterWords platform lines line m i).word platform lines :=
  Function.iterate_succ_apply' ..

theorem afterBytes_succ (j : Nat) : afterBytes platform lines line m (j + 1) =
    (afterBytes platform lines line m j).byte platform lines :=
  Function.iterate_succ_apply' ..

theorem patchOp_of_flag (h : 0 < m.state.ifFlag) : patchOp platform lines line m =
    { m with state.currentLineNr := m.state.currentLineNr + (line.value.toNat + 7) / 8 } :=
  if_pos h

theorem patchOp_of_not_flag (h : ¬ 0 < m.state.ifFlag) : patchOp platform lines line m =
    { m with
      state.currentLineNr :=
        (afterBytes platform lines line m (line.value.toNat % 4)).currentLineNr
      memory := (afterBytes platform lines line m (line.value.toNat % 4)).memory } :=
  if_neg h

/-- The indices into `cheat_lines` that the loops use. -/
def patchReads (platform : Platform μ) (lines : List Instruction) (line : Instruction)
    (m : Machine μ) : List Int :=
  if 0 < m.state.ifFlag then []
  else
    (List.range (line.value.toNat / 4)).map (fun i =>
        (afterWords platform lines line m i).currentLineNr) ++
      (List.range (line.value.toNat % 4)).map fun j =>
        (afterBytes platform lines line m j).currentLineNr

/-- What the first loop has done after `i` words. -/
structure WordsTaken (line : Instruction) (m : Machine μ) (i : Nat) (p : PatchState μ) : Prop where
  numBytes : p.numBytes = line.value.toNat - 4 * i
  addr : p.addr = line.address + m.state.offset + UInt32.ofNat (4 * i)
  first : p.first = decide (i % 2 = 0)
  bitOffset : p.bitOffset = 0
  currentLineNr : p.currentLineNr =
    m.state.currentLineNr + 1 + min (i / 2) ((line.value.toNat + 7) / 8 - 1)

theorem wordsTaken_afterWords (hpos : 0 < line.value.toNat) {i : Nat}
    (hi : i ≤ line.value.toNat / 4) :
    WordsTaken line m i (afterWords platform lines line m i) := by
  induction i with
  | zero => exact ⟨rfl, by simp [afterWords, patchStart], rfl, rfl, by
      simp [afterWords, patchStart, hpos]⟩
  | succ i ih =>
      obtain ⟨hnum, haddr, hfirst, hbit, hnr⟩ := ih (by omega)
      rw [afterWords_succ]
      refine ⟨?_, ?_, ?_, hbit, ?_⟩
      · simp only [PatchState.word, hnum]
        omega
      · simp only [PatchState.word, haddr]
        rw [UInt32.add_assoc, Nat.mul_succ, UInt32.ofNat_add]
        rfl
      · simp only [PatchState.word, hfirst]
        rw [← decide_not]
        congr 1
        simp only [eq_iff_iff]
        omega
      · simp only [PatchState.word, hnum, hfirst, hnr]
        by_cases heven : i % 2 = 0
        · simp [heven]
          omega
        · simp [heven]
          split <;> omega

/-- What the second loop has done after `j` bytes. -/
structure BytesTaken (line : Instruction) (m : Machine μ) (j : Nat) (p : PatchState μ) :
    Prop where
  addr : p.addr = line.address + m.state.offset +
    UInt32.ofNat (4 * (line.value.toNat / 4)) + UInt32.ofNat j
  first : p.first = decide (line.value.toNat / 4 % 2 = 0)
  bitOffset : p.bitOffset = UInt32.ofNat (8 * j)
  currentLineNr : p.currentLineNr = m.state.currentLineNr + 1 +
    min (line.value.toNat / 4 / 2) ((line.value.toNat + 7) / 8 - 1)

theorem bytesTaken_afterBytes (hpos : 0 < line.value.toNat) (j : Nat) :
    BytesTaken line m j (afterBytes platform lines line m j) := by
  induction j with
  | zero =>
      have hwords : WordsTaken line m (line.value.toNat / 4)
          (afterWords platform lines line m (line.value.toNat / 4)) :=
        wordsTaken_afterWords hpos le_rfl
      exact ⟨hwords.addr.trans (UInt32.add_zero _).symm, hwords.first, hwords.bitOffset,
        hwords.currentLineNr⟩
  | succ j ih =>
      obtain ⟨haddr, hfirst, hbit, hnr⟩ := ih
      rw [afterBytes_succ]
      refine ⟨?_, hfirst, ?_, hnr⟩
      · simp only [PatchState.byte, haddr]
        rw [UInt32.add_assoc, UInt32.ofNat_add j 1]
        rfl
      · simp only [PatchState.byte, hbit]
        rw [Nat.mul_succ, UInt32.ofNat_add]
        rfl

theorem mem_patchReads {r : Int} : r ∈ patchReads platform lines line m ↔
    ¬ 0 < m.state.ifFlag ∧
      ∃ k : Nat, 8 * k < line.value.toNat ∧ r = m.state.currentLineNr + 1 + k := by
  unfold patchReads
  by_cases hflag : 0 < m.state.ifFlag
  · simp [hflag]
  · rw [if_neg hflag]
    simp only [hflag, not_false_eq_true, true_and, List.mem_append, List.mem_map, List.mem_range]
    constructor
    · rintro (⟨i, hi, rfl⟩ | ⟨j, hj, rfl⟩)
      · have hpos : 0 < line.value.toNat := by omega
        exact ⟨i / 2, by omega, by
          rw [(wordsTaken_afterWords hpos (by omega)).currentLineNr]
          omega⟩
      · have hpos : 0 < line.value.toNat := by omega
        exact ⟨line.value.toNat / 4 / 2, by omega, by
          rw [(bytesTaken_afterBytes hpos j).currentLineNr]
          omega⟩
    · rintro ⟨k, hk, rfl⟩
      have hpos : 0 < line.value.toNat := by omega
      by_cases hword : 8 * k + 4 ≤ line.value.toNat
      · refine .inl ⟨2 * k, by omega, ?_⟩
        rw [(wordsTaken_afterWords hpos (by omega)).currentLineNr]
        omega
      · refine .inr ⟨0, by omega, ?_⟩
        rw [(bytesTaken_afterBytes hpos 0).currentLineNr]
        omega

/-- The bytes that the lines after `line` offer to it. -/
def patchBytes (lines : List Instruction) (line : Instruction) (m : Machine μ) : List UInt8 :=
  ((patchWords (lines.drop (m.state.currentLineNr.toNat + 1))).flatMap leBytes).take
    line.value.toNat

theorem drop_flatMap_leBytes {words : List UInt32} {i : Nat} {w : UInt32}
    (h : words[i]? = some w) :
    (words.flatMap leBytes).drop (4 * i) =
      leBytes w ++ (words.flatMap leBytes).drop (4 * (i + 1)) := by
  induction words generalizing i with
  | nil => simp at h
  | cons v rest ih =>
      cases i with
      | zero =>
          obtain rfl := Option.some.inj h
          rfl
      | succ i =>
          have hdrop : ∀ k, ((v :: rest).flatMap leBytes).drop (4 * (k + 1)) =
              (rest.flatMap leBytes).drop (4 * k) := by
            intro k
            rw [List.flatMap_cons, Nat.mul_succ, Nat.add_comm, ← List.drop_drop,
              List.drop_left' (length_leBytes v)]
          rw [hdrop, hdrop]
          exact ih h

/-- Enough lines follow for all bytes. -/
def LinesFollow (lines : List Instruction) (line : Instruction) (m : Machine μ) : Prop :=
  m.state.currentLineNr + ((line.value.toNat + 7) / 8 : Nat) < lines.length

instance : Decidable (LinesFollow lines line m) := inferInstanceAs (Decidable (_ < _))

theorem exists_patchWord (platform : Platform μ) (hnr : 0 ≤ m.state.currentLineNr)
    (hlines : LinesFollow lines line m) {i : Nat} (hi : 4 * i < line.value.toNat) {p : PatchState μ}
    (hfirst : p.first = decide (i % 2 = 0))
    (hline : p.currentLineNr = m.state.currentLineNr + 1 + (i / 2 : Nat)) :
    (patchWords (lines.drop (m.state.currentLineNr.toNat + 1)))[i]? =
      some (p.tmp platform lines) := by
  unfold LinesFollow at hlines
  have hindex : p.currentLineNr.toNat = m.state.currentLineNr.toNat + 1 + i / 2 := by omega
  have hlt : m.state.currentLineNr.toNat + 1 + i / 2 < lines.length := by omega
  rw [getElem?_patchWords, List.getElem?_drop, List.getElem?_eq_getElem hlt, Option.map_some]
  simp only [PatchState.tmp, lineAt, hindex, List.getElem?_eq_getElem hlt, Option.getD_some, hfirst,
    decide_eq_true_eq]

theorem patchBytes_drop {i : Nat} {w : UInt32}
    (hw : (patchWords (lines.drop (m.state.currentLineNr.toNat + 1)))[i]? = some w) :
    (patchBytes lines line m).drop (4 * i) =
      (leBytes w ++ ((patchWords (lines.drop (m.state.currentLineNr.toNat + 1))).flatMap
        leBytes).drop (4 * (i + 1))).take (line.value.toNat - 4 * i) := by
  rw [patchBytes, List.drop_take, drop_flatMap_leBytes hw]

theorem writeBytes_afterWords (hnr : 0 ≤ m.state.currentLineNr) (hlines : LinesFollow lines line m)
    {i : Nat} (hi : i ≤ line.value.toNat / 4) :
    writeBytes platform ((patchBytes lines line m).drop (4 * i))
        (afterWords platform lines line m i).addr (afterWords platform lines line m i).memory =
      writeBytes platform (patchBytes lines line m) (line.address + m.state.offset)
        (platform.invalidateCacheRange m.memory (line.address + m.state.offset) line.value) := by
  induction i with
  | zero => rfl
  | succ i ih =>
      have hpos : 0 < line.value.toNat := by omega
      have hwords : WordsTaken line m i (afterWords platform lines line m i) :=
        wordsTaken_afterWords hpos (by omega)
      have hw := exists_patchWord platform hnr hlines (i := i) (by omega)
        hwords.first (by rw [hwords.currentLineNr]; omega)
      have hsplit : (patchBytes lines line m).drop (4 * i) =
          leBytes ((afterWords platform lines line m i).tmp platform lines) ++
            (patchBytes lines line m).drop (4 * (i + 1)) := by
        rw [patchBytes_drop hw, List.take_append, List.take_of_length_le (by simp; omega),
          length_leBytes, patchBytes, List.drop_take]
        congr 2
      rw [← ih (by omega), hsplit, writeBytes_leBytes, afterWords_succ]
      rfl

theorem writeBytes_afterBytes (hnr : 0 ≤ m.state.currentLineNr) (hlines : LinesFollow lines line m)
    {j : Nat} (hj : j ≤ line.value.toNat % 4) :
    writeBytes platform ((patchBytes lines line m).drop (4 * (line.value.toNat / 4) + j))
        (afterBytes platform lines line m j).addr (afterBytes platform lines line m j).memory =
      writeBytes platform (patchBytes lines line m) (line.address + m.state.offset)
        (platform.invalidateCacheRange m.memory (line.address + m.state.offset) line.value) := by
  induction j with
  | zero => exact writeBytes_afterWords hnr hlines le_rfl
  | succ j ih =>
      have hpos : 0 < line.value.toNat := by omega
      have hbytes : BytesTaken line m j (afterBytes platform lines line m j) :=
        bytesTaken_afterBytes hpos j
      have hw := exists_patchWord platform hnr hlines (i := line.value.toNat / 4)
        (by omega) hbytes.first (by rw [hbytes.currentLineNr]; omega)
      have hlength : (patchBytes lines line m).length ≤ line.value.toNat := by
        simp [patchBytes]
      have hbyte : (patchBytes lines line m)[4 * (line.value.toNat / 4) + j]? =
          some ((afterBytes platform lines line m j).tmp platform lines >>>
            (afterBytes platform lines line m j).bitOffset).toUInt8 := by
        rw [← List.getElem?_drop, patchBytes_drop hw, List.getElem?_take_of_lt (by omega),
          List.getElem?_append_left (by simp; omega), getElem?_leBytes _ (by omega),
          hbytes.bitOffset]
      rw [← ih (by omega), List.drop_eq_getElem?_toList_append
          (i := 4 * (line.value.toNat / 4) + j), hbyte, Option.toList_some, List.singleton_append,
        writeBytes_cons, afterBytes_succ, Nat.add_assoc]
      · rfl
      · simp
        omega

theorem memory_afterBytes (hnr : 0 ≤ m.state.currentLineNr) (hlines : LinesFollow lines line m) :
    (afterBytes platform lines line m (line.value.toNat % 4)).memory =
      writeBytes platform (patchBytes lines line m) (line.address + m.state.offset)
        (platform.invalidateCacheRange m.memory (line.address + m.state.offset) line.value) := by
  rw [← writeBytes_afterBytes hnr hlines le_rfl, Nat.div_add_mod,
    List.drop_eq_nil_of_le (by simp [patchBytes]), writeBytes]

theorem currentLineNr_afterBytes :
    (afterBytes platform lines line m (line.value.toNat % 4)).currentLineNr =
      m.state.currentLineNr + ((line.value.toNat + 7) / 8 : Nat) := by
  by_cases hpos : 0 < line.value.toNat
  · rw [(bytesTaken_afterBytes hpos _).currentLineNr]
    omega
  · have hzero : line.value.toNat = 0 := by omega
    simp [hzero, afterBytes, afterWords, patchStart]

/-- What the patch code is to do, executed with enough lines behind it: the platform is asked to
write the bytes from the address on, a memory that stores them reads as it did with the bytes
laid over it, and the line number moves as far as it does in a skipped block. -/
def Patches (platform : Platform μ) (lines : List Instruction) (line : Instruction)
    (m : Machine μ) : Prop :=
  patchOp platform lines line m =
      { m with
        state.currentLineNr :=
          (patchOp platform lines line { m with state.ifFlag := 1 }).state.currentLineNr
        memory := writeBytes platform (patchBytes lines line m) (line.address + m.state.offset)
          (platform.invalidateCacheRange m.memory (line.address + m.state.offset) line.value) } ∧
    ∀ look, platform.StoresBytes look → look (patchOp platform lines line m).memory =
      overlay (patchBytes lines line m) (line.address + m.state.offset) (look m.memory)

theorem patches_of_linesFollow (hnr : 0 ≤ m.state.currentLineNr) (hflag : ¬ 0 < m.state.ifFlag)
    (hlines : LinesFollow lines line m) : Patches platform lines line m := by
  have hop : patchOp platform lines line m =
      { m with
        state.currentLineNr :=
          (patchOp platform lines line { m with state.ifFlag := 1 }).state.currentLineNr
        memory := writeBytes platform (patchBytes lines line m) (line.address + m.state.offset)
          (platform.invalidateCacheRange m.memory (line.address + m.state.offset)
            line.value) } := by
    rw [patchOp_of_not_flag hflag, patchOp_of_flag (show (0 : UInt32) < 1 by decide), currentLineNr_afterBytes,
      memory_afterBytes hnr hlines]
    norm_cast
  refine ⟨hop, fun look hlook => ?_⟩
  rw [hop]
  have hlength : (patchBytes lines line m).length ≤ 2 ^ 32 := by
    have hvalue := line.value.toNat_lt
    simp only [patchBytes, List.length_take]
    omega
  rw [look_writeBytes hlook _ _ _ hlength, hlook.invalidateCacheRange]

/-- Executed with enough lines behind it the patch code writes what it should, and it never
indexes the lines out of range: exactly when it is skipped, is about no bytes, or has enough
lines behind it. -/
theorem patchOp_meets_iff (hnr : 0 ≤ m.state.currentLineNr) :
    (((¬ 0 < m.state.ifFlag ∧ LinesFollow lines line m → Patches platform lines line m) ∧
      ∀ r ∈ patchReads platform lines line m, 0 ≤ r ∧ r < lines.length) ↔
    (0 < m.state.ifFlag ∨ line.value = 0 ∨ LinesFollow lines line m)) := by
  constructor
  · rintro ⟨-, hreads⟩
    by_contra hnot
    rw [not_or, not_or] at hnot
    obtain ⟨hflag, hvalue, hlines⟩ := hnot
    have hpos : 0 < line.value.toNat := by
      apply Nat.pos_of_ne_zero
      exact fun hzero => hvalue (UInt32.toNat_inj.mp hzero)
    -- The last line that is asked for.
    have hlast := hreads (m.state.currentLineNr + 1 + ((line.value.toNat - 1) / 8 : Nat))
      (mem_patchReads.mpr ⟨hflag, _, by omega, rfl⟩)
    unfold LinesFollow at hlines
    omega
  · intro hcond
    refine ⟨fun h => patches_of_linesFollow hnr h.1 h.2, fun r hr => ?_⟩
    obtain ⟨hflag, k, hk, rfl⟩ := mem_patchReads.mp hr
    rcases hcond with hskip | hzero | hlines
    · exact absurd hskip hflag
    · simp [hzero] at hk
    · unfold LinesFollow at hlines
      omega

end Loops

/-- A flat memory. -/
def flatPlatform : Platform (UInt32 → UInt8) where
  read8 memory addr := memory addr
  read16 memory addr := (memory addr).toUInt16 + 256 * (memory (addr + 1)).toUInt16
  read32 memory addr :=
    wordOf (memory addr) (memory (addr + 1)) (memory (addr + 2)) (memory (addr + 3))
  write8 memory addr v := overlay [v] addr memory
  write16 memory addr v := overlay [v.toUInt8, (v >>> 8).toUInt8] addr memory
  write32 memory addr v := overlay (leBytes v) addr memory
  invalidateCacheRange memory _ _ := memory
  padState _ := 0
  behind _ := { type := .null }

/-- Five bytes for one line behind the code. -/
theorem patchOp_meets_flat :
    Patches flatPlatform [⟨.patch, 0x100, 5, 0xE0000100⟩, ⟨.write16, 0x01223344, 0x55667788, 0x11223344⟩]
      ⟨.patch, 0x100, 5, 0xE0000100⟩ { memory := fun _ => 0 } :=
  ((patchOp_meets_iff (by decide)).mpr (.inr (.inr (by decide)))).1 ⟨by decide, by decide⟩

/-- A patch code for one byte at the end of the list reads behind it. -/
theorem patchOp_reads_behind :
    ¬ ∀ r ∈ patchReads flatPlatform [⟨.patch, 0x100, 1, 0xE0000100⟩]
      ⟨.patch, 0x100, 1, 0xE0000100⟩ { memory := fun _ => 0 },
      0 ≤ r ∧ r < ([⟨.patch, 0x100, 1, 0xE0000100⟩] : List Instruction).length := by
  intro h
  exact absurd (h 1 (mem_patchReads.mpr ⟨by decide, 0, by decide, rfl⟩)).2 (by decide)

end Cytrus.Cheats
