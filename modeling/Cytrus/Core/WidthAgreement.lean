import Cytrus.Core.MemoryAccess

/-!
# Wide accesses and their bytes

A wide access agrees with its single bytes, whatever memory holds, when the page
after the one it starts on continues that page, or when it stays in one page.
-/

namespace Cytrus.Memory

open Support

/-! ## Bytes and values -/

theorem ofBytes_singleton (b : UInt8) : ofBytes [b] = b.toNat := by
  simp [ofBytes]

theorem length_toBytes (width value : Nat) : (toBytes width value).length = width := by
  simp [toBytes]

namespace MemorySystem

theorem length_load (m : MemorySystem) (pointer count : Nat) :
    (m.load pointer count).length = count := by
  simp [load]

theorem load_getElem? (m : MemorySystem) (pointer : Nat) {count i : Nat} (h : i < count) :
    (m.load pointer count)[i]? = some (m.bytes (pointer + i)) := by
  simp [load, h]

theorem load_one (m : MemorySystem) (pointer : Nat) : m.load pointer 1 = [m.bytes pointer] := by
  simp [load]

theorem store_bytes (m : MemorySystem) (pointer : Nat) (data : List UInt8) (q : Nat) :
    (m.store pointer data).bytes q =
      if pointer ≤ q then (data[q - pointer]?).getD (m.bytes q) else m.bytes q := rfl

theorem store_inside (m : MemorySystem) (pointer : Nat) (data : List UInt8) {i : Nat}
    {b : UInt8} (h : data[i]? = some b) : (m.store pointer data).bytes (pointer + i) = b := by
  rw [store_bytes, if_pos (Nat.le_add_right pointer i), Nat.add_sub_cancel_left, h]
  rfl

theorem store_outside (m : MemorySystem) (pointer : Nat) (data : List UInt8) {q : Nat}
    (h : q < pointer ∨ pointer + data.length ≤ q) :
    (m.store pointer data).bytes q = m.bytes q := by
  rw [store_bytes]
  split
  · rw [List.getElem?_eq_none (by omega)]
    rfl
  · rfl

end MemorySystem

/-- A system with the layout of `m` and given contents. -/
def content (m : MemorySystem) (bytes : Nat → UInt8) (gpu : GPU) : System :=
  ⟨{ m with bytes := bytes }, gpu⟩

/-! ## Single bytes -/

section Single

variable {m : MemorySystem} {table : PageTable} {u v : Nat} {bytes : Nat → UInt8} {gpu : GPU}

theorem target_content (m : MemorySystem) (table : PageTable) (u : Nat) (bytes : Nat → UInt8)
    (gpu : GPU) : target (content m bytes gpu).memory table u = target m table u := rfl

theorem read_content (width : Nat) :
    (content m bytes gpu).read table width u =
      (target m table u).bind ((content m bytes gpu).load width) := rfl

theorem load_host (s : System) (width pointer : Nat) :
    s.load width (.host pointer) = some (ofBytes (s.memory.load pointer width)) := rfl

theorem read8_host {pointer : Nat} (h : target m table u = some (.host pointer)) :
    (content m bytes gpu).read8 table u = some (bytes pointer).toNat := by
  rw [System.read8, read_content, h, Option.bind_some, load_host, MemorySystem.load_one,
    ofBytes_singleton]
  rfl

theorem read8_unmapped (h : target m table u = some .unmapped) :
    (content m bytes gpu).read8 table u = some 0 := by
  rw [System.read8, read_content, h]
  rfl

theorem read8_register {addr : Nat} (h : target m table u = some (.register addr)) :
    (content m bytes gpu).read8 table u =
      ((content m bytes gpu).readReg addr).map (· % 256 ^ 1) := by
  rw [System.read8, read_content, h]
  rfl

theorem read8_abort (h : target m table u = none) : (content m bytes gpu).read8 table u = none := by
  rw [System.read8, read_content, h]
  rfl

theorem readReg_const (m : MemorySystem) (bytes : Nat → UInt8) (addr x : Nat) :
    (content m bytes ⟨fun _ => x, fun _ => x⟩).readReg addr =
      (decodeRegister addr).map fun _ => x := by
  unfold System.readReg
  cases decodeRegister addr with
  | none => rfl
  | some register =>
      cases register with
      | lcd index => rfl
      | gpu index => rfl

theorem target_eq_host {pointer : Nat}
    (h : ∀ bytes gpu, (content m bytes gpu).read8 table u = some (bytes pointer).toNat) :
    target m table u = some (.host pointer) := by
  cases htarget : target m table u with
  | none =>
      have hread := h (fun _ => 0) ⟨fun _ => 0, fun _ => 0⟩
      rw [read8_abort htarget] at hread
      cases hread
  | some t =>
      cases t with
      | host q =>
          have hread := h (Function.update (fun _ => 0) q 1) ⟨fun _ => 0, fun _ => 0⟩
          rw [read8_host htarget, Function.update_self] at hread
          by_cases hq : pointer = q
          · rw [hq]
          · rw [Function.update_of_ne hq] at hread
            cases hread
      | register addr =>
          have hread := h (fun _ => 1) ⟨fun _ => 0, fun _ => 0⟩
          rw [read8_register htarget, readReg_const] at hread
          cases hdecode : decodeRegister addr with
          | none => simp [hdecode] at hread
          | some register => simp [hdecode] at hread
      | unmapped =>
          have hread := h (fun _ => 1) ⟨fun _ => 0, fun _ => 0⟩
          rw [read8_unmapped htarget] at hread
          cases hread

theorem target_eq_unmapped
    (h : ∀ bytes gpu, (content m bytes gpu).read8 table u = some 0) :
    target m table u = some .unmapped := by
  have hread := h (fun _ => 1) ⟨fun _ => 1, fun _ => 1⟩
  cases htarget : target m table u with
  | none =>
      rw [read8_abort htarget] at hread
      cases hread
  | some t =>
      cases t with
      | host q =>
          rw [read8_host htarget] at hread
          cases hread
      | register addr =>
          rw [read8_register htarget, readReg_const] at hread
          cases hdecode : decodeRegister addr with
          | none => simp [hdecode] at hread
          | some register => simp [hdecode] at hread
      | unmapped => rfl

end Single

/-! ## Successive bytes -/

theorem add32_zero {v : Nat} (hv : v < 2 ^ 32) : add32 v 0 = v := Nat.mod_eq_of_lt hv

theorem add32_add32 (v i : Nat) : add32 (add32 v 1) i = add32 v (i + 1) := by
  unfold add32
  omega

theorem readEach_eq_some {s : System} {table : PageTable} {v : Nat} (hv : v < 2 ^ 32)
    {count : Nat} {values : List Nat} :
    s.readEach table v count = some values ↔
      values.length = count ∧ ∀ i < count, s.read8 table (add32 v i) = values[i]? := by
  induction count generalizing v values with
  | zero =>
      rw [System.readEach, List.length_eq_zero_iff]
      constructor
      · intro h
        cases h
        exact ⟨rfl, fun i hi => absurd hi (Nat.not_lt_zero i)⟩
      · rintro ⟨rfl, -⟩
        rfl
  | succ count ih =>
      rw [System.readEach]
      constructor
      · intro h
        obtain ⟨value, hvalue, h⟩ := Option.bind_eq_some_iff.mp h
        obtain ⟨rest, hrest, h⟩ := Option.bind_eq_some_iff.mp h
        cases h
        obtain ⟨hlength, hbytes⟩ := (ih (add32_lt v 1)).mp hrest
        refine ⟨by rw [List.length_cons, hlength], fun i hi => ?_⟩
        cases i with
        | zero => rw [add32_zero hv, hvalue, List.getElem?_cons_zero]
        | succ i =>
            rw [← add32_add32, hbytes i (by omega), List.getElem?_cons_succ]
      · rintro ⟨hlength, hbytes⟩
        obtain ⟨value, rest, rfl⟩ := List.exists_cons_of_length_eq_add_one hlength
        have hfirst := hbytes 0 (Nat.succ_pos count)
        rw [add32_zero hv, List.getElem?_cons_zero] at hfirst
        have hrest : s.readEach table (add32 v 1) count = some rest := by
          refine (ih (add32_lt v 1)).mpr ⟨by simpa using hlength, fun i hi => ?_⟩
          rw [add32_add32, hbytes (i + 1) (by omega), List.getElem?_cons_succ]
        rw [hfirst]
        change (s.readEach table (add32 v 1) count).bind _ = _
        rw [hrest]
        rfl

/-! ## One page -/

/-- The framebuffer of a plugin is nowhere or in FCRAM. -/
def MemorySystem.Placed (m : MemorySystem) : Prop :=
  m.pluginFbAddress = 0 ∨ MemorySystem.fcramPaddr ≤ m.pluginFbAddress

/-- The target some bytes further on. -/
def Target.shift (i : Nat) : Target → Target
  | .host pointer => .host (pointer + i)
  | .register addr => .register (addr + i)
  | .unmapped => .unmapped

section Page

variable {m : MemorySystem} {table : PageTable} {v i width : Nat}

theorem add32_inPage (hv : v < 2 ^ 32) (hi : v % pageSize + i < pageSize) : add32 v i = v + i := by
  apply add32_of_lt
  unfold pageSize at hi
  omega

theorem div_inPage (hi : v % pageSize + i < pageSize) : (v + i) / pageSize = v / pageSize := by
  unfold pageSize at *
  omega

theorem mod_inPage (hi : v % pageSize + i < pageSize) :
    (v + i) % pageSize = v % pageSize + i := by
  unfold pageSize at *
  omega

theorem inRegion_shift {first last : Nat} (hfirst : pageSize ∣ first) (hlast : pageSize ∣ last)
    (hi : v % pageSize + i < pageSize) :
    (first ≤ v + i ∧ v + i < last) ↔ (first ≤ v ∧ v < last) := by
  obtain ⟨a, rfl⟩ := hfirst
  obtain ⟨b, rfl⟩ := hlast
  unfold pageSize at *
  omega

theorem host_shift {base pointer v i : Nat} (h : base ≤ v) :
    pointer + (v + i - base) = pointer + (v - base) + i := by
  omega

open MemorySystem in
theorem cached_shift (hm : m.Placed) (hi : v % pageSize + i < pageSize) :
    m.getPointerForRasterizerCache (v + i) =
      (m.getPointerForRasterizerCache v).map (· + i) := by
  have haligned : ∀ n, n % pageSize = 0 → pageSize ∣ n := fun n => Nat.dvd_of_mod_eq_zero
  have hlinear := inRegion_shift (haligned linearHeapVaddr rfl) (haligned linearHeapVaddrEnd rfl) hi
  have hnew :=
    inRegion_shift (haligned newLinearHeapVaddr rfl) (haligned newLinearHeapVaddrEnd rfl) hi
  have hvram := inRegion_shift (haligned vramVaddr rfl) (haligned vramVaddrEnd rfl) hi
  have hplugin :=
    inRegion_shift (haligned plugin3gxFbVaddr rfl) (haligned plugin3gxFbVaddrEnd rfl) hi
  unfold getPointerForRasterizerCache
  simp only [hlinear, hnew, hvram, ← and_assoc, hplugin]
  by_cases h₁ : linearHeapVaddr ≤ v ∧ v < linearHeapVaddrEnd
  · simp only [if_pos h₁, Option.map_some, host_shift h₁.1]
  rw [if_neg h₁, if_neg h₁]
  by_cases h₂ : newLinearHeapVaddr ≤ v ∧ v < newLinearHeapVaddrEnd
  · simp only [if_pos h₂, Option.map_some, host_shift h₂.1]
  rw [if_neg h₂, if_neg h₂]
  by_cases h₃ : vramVaddr ≤ v ∧ v < vramVaddrEnd
  · simp only [if_pos h₃, Option.map_some, host_shift h₃.1]
  rw [if_neg h₃, if_neg h₃]
  by_cases h₄ : (plugin3gxFbVaddr ≤ v ∧ v < plugin3gxFbVaddrEnd) ∧ m.pluginFbAddress ≠ 0
  · rw [if_pos h₄, if_pos h₄, Option.map_some]
    have hbase := h₄.1.1
    have hfcram := hm.resolve_left h₄.2
    have hshift : m.fcram.ptr + (v + i - plugin3gxFbVaddr + m.pluginFbAddress - fcramPaddr) =
        m.fcram.ptr + (v - plugin3gxFbVaddr + m.pluginFbAddress - fcramPaddr) + i := by
      omega
    rw [hshift]
  · rw [if_neg h₄, if_neg h₄, Option.map_none]

theorem target_shift (hm : m.Placed) (hv : v < 2 ^ 32) (hi : v % pageSize + i < pageSize) :
    target m table (add32 v i) = (target m table v).map (Target.shift i) := by
  rw [add32_inPage hv hi]
  unfold target
  rw [div_inPage hi, mod_inPage hi, cached_shift hm hi]
  have hhigh : 2 ^ 31 ≤ v + i ↔ 2 ^ 31 ≤ v := by
    unfold pageSize at hi
    omega
  have hregion : (v + i - 2 ^ 31) / 2 ^ 28 = (v - 2 ^ 31) / 2 ^ 28 := by
    unfold pageSize at hi
    omega
  have hio : ioAreaPaddr ≤ v + i - 2 ^ 31 ↔ ioAreaPaddr ≤ v - 2 ^ 31 := by
    unfold pageSize at hi
    unfold ioAreaPaddr
    omega
  simp only [hhigh, hregion, hio]
  by_cases hpointer : (table (v / pageSize)).pointer.getPtr ≠ 0
  · simp only [if_pos hpointer, Option.map_some, Target.shift, Nat.add_assoc]
  rw [if_neg hpointer, if_neg hpointer]
  by_cases hfcram : 2 ^ 31 ≤ v ∧ (v - 2 ^ 31) / 2 ^ 28 = MemorySystem.fcramPaddr / 2 ^ 28
  · rw [if_pos hfcram, if_pos hfcram, Option.map_some, Target.shift]
    have hbase : MemorySystem.fcramPaddr ≤ v - 2 ^ 31 := by
      have hwindow := hfcram.2
      unfold MemorySystem.fcramPaddr at hwindow ⊢
      omega
    have hshift : m.fcram.ptr + (v + i - 2 ^ 31 - MemorySystem.fcramPaddr) =
        m.fcram.ptr + (v - 2 ^ 31 - MemorySystem.fcramPaddr) + i := by
      omega
    rw [hshift]
  rw [if_neg hfcram, if_neg hfcram]
  by_cases hregister : 2 ^ 31 ≤ v ∧ (v - 2 ^ 31) / 2 ^ 28 = 1 ∧ ioAreaPaddr ≤ v - 2 ^ 31
  · rw [if_pos hregister, if_pos hregister, Option.map_some, Target.shift]
    have hshift : v + i - 2 ^ 31 - ioAreaPaddr + 0x1EC00000 =
        v - 2 ^ 31 - ioAreaPaddr + 0x1EC00000 + i := by
      have hbase := hregister.2.2
      omega
    rw [hshift]
  rw [if_neg hregister, if_neg hregister]
  cases (table (v / pageSize)).attributes with
  | unmapped => rfl
  | memory => rfl
  | rasterizerCachedMemory =>
      cases m.getPointerForRasterizerCache v with
      | none => rfl
      | some pointer => rfl

/-! ## The next page -/

/-- The access has bytes on the page after its first. -/
def Crosses (v width : Nat) : Prop := pageSize < v % pageSize + width

/-- The first address of the next page; the last page is followed by the first. -/
def nextPage (v : Nat) : Nat := add32 (v - v % pageSize) pageSize

/-- The next page goes on where the page of `v` ends. -/
def Adjoins (m : MemorySystem) (table : PageTable) (v : Nat) : Prop :=
  target m table (nextPage v) = (target m table v).map (Target.shift (pageSize - v % pageSize))

theorem Target.shift_shift (t : Target) (i j : Nat) : (t.shift i).shift j = t.shift (i + j) := by
  cases t with
  | host pointer => rw [shift, shift, shift, Nat.add_assoc]
  | register addr => rw [shift, shift, shift, Nat.add_assoc]
  | unmapped => rfl

theorem nextPage_lt (v : Nat) : nextPage v < 2 ^ 32 := add32_lt _ _

theorem nextPage_mod (v : Nat) : nextPage v % pageSize = 0 := by
  unfold nextPage add32 pageSize
  omega

theorem add32_nextPage (hi : pageSize ≤ v % pageSize + i) :
    add32 v i = add32 (nextPage v) (i - (pageSize - v % pageSize)) := by
  unfold nextPage add32
  unfold pageSize at *
  omega

theorem pieces_iff (hm : m.Placed) (hv : v < 2 ^ 32) (hwidth : width ≤ pageSize) :
    (∀ i < width, target m table (add32 v i) = (target m table v).map (Target.shift i)) ↔
      (Crosses v width → Adjoins m table v) := by
  have hoffset : v % pageSize < pageSize := Nat.mod_lt _ (by decide)
  constructor
  · intro h hcross
    unfold Crosses at hcross
    have hfirst := h (pageSize - v % pageSize) (by omega)
    rwa [add32_nextPage (by omega), Nat.sub_self, add32_zero (nextPage_lt v)] at hfirst
  · intro h i hi
    by_cases hpage : v % pageSize + i < pageSize
    · exact target_shift hm hv hpage
    · have hadjoins : Adjoins m table v := h (by unfold Crosses; omega)
      have hnext : nextPage v % pageSize + (i - (pageSize - v % pageSize)) < pageSize := by
        rw [nextPage_mod]
        omega
      calc target m table (add32 v i)
          = target m table (add32 (nextPage v) (i - (pageSize - v % pageSize))) := by
            rw [add32_nextPage (by omega)]
        _ = (target m table (nextPage v)).map
              (Target.shift (i - (pageSize - v % pageSize))) :=
            target_shift hm (nextPage_lt v) hnext
        _ = (target m table v).map (Target.shift i) := by
            rw [hadjoins, Option.map_map]
            congr 1
            ext t
            rw [Function.comp_apply, Target.shift_shift]
            congr 1
            omega

/-! ## Registers -/

theorem target_register_mod {addr : Nat} (h : target m table v = some (.register addr)) :
    addr % 4 = v % 4 := by
  unfold target at h
  split at h
  · cases h
  · split at h
    · cases h
    · split at h
      · rename_i hregister
        cases h
        have hbase := hregister.2.2
        unfold ioAreaPaddr at hbase ⊢
        omega
      · cases hattributes : (table (v / pageSize)).attributes with
        | unmapped =>
            rw [hattributes] at h
            cases h
        | memory =>
            rw [hattributes] at h
            cases h
        | rasterizerCachedMemory =>
            rw [hattributes] at h
            cases hcached : m.getPointerForRasterizerCache v with
            | none =>
                rw [hcached] at h
                cases h
            | some pointer =>
                rw [hcached] at h
                cases h

theorem decodeRegister_aligned {addr : Nat} (h : decodeRegister addr ≠ none) : addr % 4 = 0 := by
  by_contra hodd
  apply h
  have hindex : ∀ index count : Nat, ¬ (addr % 4 = 0 ∧ index < count) :=
    fun _ _ hc => hodd hc.1
  unfold decodeRegister
  rw [if_neg (hindex _ _), if_neg (hindex _ _), ite_self, ite_self]

theorem read8_after_register (hm : m.Placed) (hv : v < 2 ^ 32) {addr : Nat}
    (h : target m table v = some (.register addr)) (hdecode : decodeRegister addr ≠ none)
    (bytes : Nat → UInt8) (gpu : GPU) :
    (content m bytes gpu).read8 table (add32 v 1) = none := by
  have haligned := decodeRegister_aligned hdecode
  have hmod := target_register_mod h
  have hpage : v % pageSize + 1 < pageSize := by
    unfold pageSize
    omega
  have htarget : target m table (add32 v 1) = some (.register (addr + 1)) := by
    rw [target_shift hm hv hpage, h]
    rfl
  have hnone : decodeRegister (addr + 1) = none := by
    by_contra hsome
    have := decodeRegister_aligned hsome
    omega
  rw [read8_register htarget, System.readReg, hnone]
  rfl

/-! ## Reads -/

theorem read8_lt {s : System} {x : Nat} (h : s.read8 table v = some x) : x < 256 := by
  unfold System.read8 System.read at h
  obtain ⟨t, -, h⟩ := Option.bind_eq_some_iff.mp h
  cases t with
  | host pointer =>
      rw [load_host, MemorySystem.load_one, ofBytes_singleton] at h
      cases h
      exact UInt8.toNat_lt _
  | register addr =>
      obtain ⟨value, -, h⟩ := Option.map_eq_some_iff.mp h
      rw [← h]
      exact Nat.mod_lt _ (by decide)
  | unmapped =>
      cases h
      decide

theorem readEach_lt {s : System} {values : List Nat} {count : Nat} (hv : v < 2 ^ 32)
    (h : s.readEach table v count = some values) : ∀ x ∈ values, x < 256 := by
  obtain ⟨hlength, hbytes⟩ := (readEach_eq_some hv).mp h
  intro x hx
  obtain ⟨i, hi, rfl⟩ := List.mem_iff_getElem.mp hx
  have hread := hbytes i (by omega)
  rw [List.getElem?_eq_getElem hi] at hread
  exact read8_lt hread

theorem readEach_abort {s : System} {count i : Nat} (hv : v < 2 ^ 32) (hi : i < count)
    (h : s.read8 table (add32 v i) = none) : s.readEach table v count = none := by
  cases heach : s.readEach table v count with
  | none => rfl
  | some values =>
      obtain ⟨hlength, hbytes⟩ := (readEach_eq_some hv).mp heach
      rw [hbytes i hi, List.getElem?_eq_none_iff] at h
      omega

/-- `Read` of a type of `width` bytes gives what its single bytes give, whatever memory and the
registers hold. -/
def ReadAgrees (m : MemorySystem) (table : PageTable) (width v : Nat) : Prop :=
  ∀ bytes gpu, (content m bytes gpu).read table width v =
    ((content m bytes gpu).readEach table v width).map (Nat.ofDigits 256)

/-- A read starts on a page that the next one continues, on a page that aborts, or on a register
that cannot be read. -/
def ReadWhole (m : MemorySystem) (table : PageTable) (width v : Nat) : Prop :=
  match target m table v with
  | none => True
  | some (.register addr) => decodeRegister addr = none
  | some _ => Crosses v width → Adjoins m table v

/-- A read that gives certain bytes agrees exactly if the single reads give the same ones. -/
theorem read_eq_iff {s : System} (values : List Nat) (hv : v < 2 ^ 32)
    (hlength : values.length = width) (hvalues : ∀ x ∈ values, x < 256)
    (hread : s.read table width v = some (Nat.ofDigits 256 values)) :
    s.read table width v = (s.readEach table v width).map (Nat.ofDigits 256) ↔
      ∀ i < width, s.read8 table (add32 v i) = values[i]? := by
  rw [hread]
  constructor
  · intro h
    obtain ⟨each, heach, hdigits⟩ := Option.map_eq_some_iff.mp h.symm
    obtain ⟨heachLength, hbytes⟩ := (readEach_eq_some hv).mp heach
    have hsame : each = values :=
      Nat.ofDigits_inj_of_len_eq (by decide) (heachLength.trans hlength.symm)
        (readEach_lt hv heach) hvalues hdigits
    rwa [hsame] at hbytes
  · intro h
    rw [(readEach_eq_some hv).mpr ⟨hlength, h⟩, Option.map_some]

theorem readAgrees_iff (hm : m.Placed) (hv : v < 2 ^ 32) (hmore : 2 ≤ width)
    (hwidth : width ≤ pageSize) : ReadAgrees m table width v ↔ ReadWhole m table width v := by
  have hfirst := add32_zero hv
  unfold ReadAgrees ReadWhole
  cases htarget : target m table v with
  | none =>
      refine iff_of_true (fun bytes gpu => ?_) trivial
      rw [read_content, htarget, readEach_abort hv (i := 0) (by omega)]
      · rfl
      · rw [hfirst, read8_abort htarget]
  | some t =>
      cases t with
      | register addr =>
          dsimp only
          cases hdecode : decodeRegister addr with
          | none =>
              refine iff_of_true (fun bytes gpu => ?_) rfl
              have hreg : (content m bytes gpu).readReg addr = none := by
                rw [System.readReg, hdecode]
              rw [read_content, htarget, readEach_abort hv (i := 0) (by omega)]
              · rw [Option.bind_some, System.load, hreg]
                rfl
              · rw [hfirst, read8_register htarget, hreg]
                rfl
          | some register =>
              refine iff_of_false (fun h => ?_) nofun
              have hread := h (fun _ => 0) ⟨fun _ => 0, fun _ => 0⟩
              rw [readEach_abort hv (i := 1) (by omega)
                (read8_after_register hm hv htarget (by simp [hdecode]) _ _), read_content,
                htarget, Option.bind_some, System.load, readReg_const, hdecode] at hread
              cases hread
      | host pointer =>
          dsimp only
          rw [← pieces_iff hm hv hwidth, htarget]
          have hbytes : ∀ bytes gpu, (content m bytes gpu).read table width v =
              ((content m bytes gpu).readEach table v width).map (Nat.ofDigits 256) ↔
                ∀ i < width, (content m bytes gpu).read8 table (add32 v i) =
                  some (bytes (pointer + i)).toNat := by
            intro bytes gpu
            have hload : ∀ i < width,
                (((content m bytes gpu).memory.load pointer width).map UInt8.toNat)[i]? =
                  some (bytes (pointer + i)).toNat := by
              intro i hi
              rw [List.getElem?_map, MemorySystem.load_getElem? _ _ hi]
              rfl
            rw [read_eq_iff (((content m bytes gpu).memory.load pointer width).map UInt8.toNat)
              hv (by rw [List.length_map, MemorySystem.length_load])]
            · exact forall₂_congr fun i hi => by rw [hload i hi]
            · intro x hx
              obtain ⟨b, -, rfl⟩ := List.mem_map.mp hx
              exact UInt8.toNat_lt b
            · rw [read_content, htarget]
              rfl
          constructor
          · intro h i hi
            exact target_eq_host fun bytes gpu => (hbytes bytes gpu).mp (h bytes gpu) i hi
          · intro h bytes gpu
            exact (hbytes bytes gpu).mpr fun i hi => read8_host (h i hi)
      | unmapped =>
          dsimp only
          rw [← pieces_iff hm hv hwidth, htarget]
          have hbytes : ∀ bytes gpu, (content m bytes gpu).read table width v =
              ((content m bytes gpu).readEach table v width).map (Nat.ofDigits 256) ↔
                ∀ i < width, (content m bytes gpu).read8 table (add32 v i) = some 0 := by
            intro bytes gpu
            rw [read_eq_iff (List.replicate width 0) hv List.length_replicate]
            · exact forall₂_congr fun i hi => by rw [List.getElem?_replicate, if_pos hi]
            · intro x hx
              rw [List.eq_of_mem_replicate hx]
              decide
            · have hzero : Nat.ofDigits 256 (List.replicate width 0) = 0 := by
                exact Nat.ofDigits_append_replicate_zero (b := 256) (k := width) []
              rw [read_content, htarget, hzero]
              rfl
          constructor
          · intro h i hi
            exact target_eq_unmapped fun bytes gpu => (hbytes bytes gpu).mp (h bytes gpu) i hi
          · intro h bytes gpu
            exact (hbytes bytes gpu).mpr fun i hi => read8_unmapped (h i hi)

end Page

/-! ## Writes -/

theorem toBytes_succ (width value : Nat) :
    toBytes (width + 1) value = UInt8.ofNat value :: toBytes width (value / 256) := by
  unfold toBytes
  rw [List.range_succ_eq_map, List.map_cons, List.map_map, pow_zero, Nat.div_one]
  congr 1
  apply List.map_congr_left
  intro i _
  rw [Function.comp_apply, Nat.succ_eq_add_one, pow_succ', Nat.div_div_eq_div_mul]

theorem toBytes_ofBytes (bytes : List UInt8) : toBytes bytes.length (ofBytes bytes) = bytes := by
  induction bytes with
  | nil => rfl
  | cons b rest ih =>
      have hvalue : ofBytes (b :: rest) = b.toNat + 256 * ofBytes rest := by
        rw [ofBytes, List.map_cons, Nat.ofDigits_cons]
        rfl
      have hb := UInt8.toNat_lt b
      have hlow : UInt8.ofNat (b.toNat + 256 * ofBytes rest) = b := by
        rw [← UInt8.toNat_inj, UInt8.toNat_ofNat']
        omega
      have hhigh : (b.toNat + 256 * ofBytes rest) / 256 = ofBytes rest := by
        omega
      rw [List.length_cons, toBytes_succ, hvalue, hlow, hhigh, ih]

namespace MemorySystem

theorem ext_bytes {m m' : MemorySystem} (hbytes : m.bytes = m'.bytes) (hfcram : m.fcram = m'.fcram)
    (hvram : m.vram = m'.vram) (hplugin : m.pluginFbAddress = m'.pluginFbAddress) : m = m' := by
  cases m
  cases m'
  cases hbytes
  cases hfcram
  cases hvram
  cases hplugin
  rfl

theorem store_nil (m : MemorySystem) (pointer : Nat) : m.store pointer [] = m := by
  refine ext_bytes (funext fun q => ?_) rfl rfl rfl
  rw [store_bytes]
  simp

theorem store_append (m : MemorySystem) (pointer : Nat) (front back : List UInt8) :
    (m.store pointer front).store (pointer + front.length) back =
      m.store pointer (front ++ back) := by
  refine ext_bytes (funext fun q => ?_) rfl rfl rfl
  simp only [store_bytes]
  by_cases hback : pointer + front.length ≤ q
  · have hindex : q - pointer - front.length = q - (pointer + front.length) := by
      omega
    have hfront : front[q - pointer]? = none := List.getElem?_eq_none (by omega)
    rw [if_pos hback, if_pos (by omega), if_pos (by omega), hfront,
      List.getElem?_append_right (by omega), hindex]
    rfl
  · rw [if_neg hback]
    by_cases hfront : pointer ≤ q
    · rw [if_pos hfront, if_pos hfront, List.getElem?_append_left (by omega)]
    · rw [if_neg hfront, if_neg hfront]

end MemorySystem

/-- Two calls abort, or leave states that no later `Read8` call tells apart, whatever page table
it uses. -/
def SameEffect : Option System → Option System → Prop
  | some s, some t => ∀ table v, s.read8 table v = t.read8 table v
  | none, none => True
  | _, _ => False

theorem SameEffect.refl (x : Option System) : SameEffect x x := by
  cases x with
  | none => trivial
  | some s => exact fun _ _ => rfl

section Store

variable {action : Nat → System → System} {s t : System} {table : PageTable} {u v : Nat}

/-- The system with other memory contents. -/
def System.with (s : System) (pointer : Nat) (data : List UInt8) : System :=
  { s with memory := s.memory.store pointer data }

theorem with_append (s : System) (pointer : Nat) (front back : List UInt8) :
    (s.with pointer front).with (pointer + front.length) back =
      s.with pointer (front ++ back) := by
  unfold System.with
  rw [MemorySystem.store_append]

theorem target_with (s : System) (table : PageTable) (u pointer : Nat) (data : List UInt8) :
    target (s.with pointer data).memory table u = target s.memory table u := rfl

theorem write8_host {pointer : Nat} (h : target s.memory table u = some (.host pointer))
    (value : UInt8) : s.write8 action table u value.toNat = some (s.with pointer [value]) := by
  rw [System.write8, System.write, h, Option.bind_some, System.store, toBytes_succ,
    UInt8.ofNat_toNat]
  rfl

theorem write8_unmapped (h : target s.memory table u = some .unmapped) (value : Nat) :
    s.write8 action table u value = some s := by
  rw [System.write8, System.write, h]
  rfl

theorem target_of_write8 {value : Nat} (h : s.write8 action table u value = some t) :
    (target s.memory table u = some .unmapped ∨
      ∃ pointer, target s.memory table u = some (.host pointer)) ∧
      ∀ table' u', target t.memory table' u' = target s.memory table' u' := by
  unfold System.write8 System.write at h
  cases htarget : target s.memory table u with
  | none =>
      rw [htarget] at h
      cases h
  | some target =>
      rw [htarget] at h
      cases target with
      | host pointer =>
          cases h
          exact ⟨.inr ⟨pointer, rfl⟩, fun _ _ => rfl⟩
      | register addr => cases h
      | unmapped =>
          cases h
          exact ⟨.inl rfl, fun _ _ => rfl⟩

theorem targets_of_writeEach {data : List UInt8} (hv : v < 2 ^ 32)
    (h : s.writeEach action table v data = some t) :
    ∀ i < data.length, target s.memory table (add32 v i) = some .unmapped ∨
      ∃ pointer, target s.memory table (add32 v i) = some (.host pointer) := by
  induction data generalizing s v with
  | nil => exact fun i hi => absurd hi (Nat.not_lt_zero i)
  | cons value rest ih =>
      obtain ⟨s', hs', hrest⟩ := Option.bind_eq_some_iff.mp h
      obtain ⟨hfirst, hlayout⟩ := target_of_write8 hs'
      intro i hi
      cases i with
      | zero => rwa [add32_zero hv]
      | succ i =>
          have hlater := ih (add32_lt v 1) hrest i (by simpa using hi)
          rwa [hlayout, add32_add32] at hlater

theorem writeEach_append (front back : List UInt8) (hv : v < 2 ^ 32) :
    s.writeEach action table v (front ++ back) =
      (s.writeEach action table v front).bind fun t =>
        t.writeEach action table (add32 v front.length) back := by
  induction front generalizing s v with
  | nil => rw [List.length_nil, add32_zero hv]; rfl
  | cons value rest ih =>
      rw [List.cons_append, System.writeEach, System.writeEach]
      cases s.write8 action table v value.toNat with
      | none => rfl
      | some s' =>
          change s'.writeEach action table (add32 v 1) (rest ++ back) = _
          rw [ih (add32_lt v 1), add32_add32]
          rfl

theorem writeEach_host (pointer : Nat) {data : List UInt8} (hv : v < 2 ^ 32)
    (h : ∀ i < data.length, target s.memory table (add32 v i) = some (.host (pointer + i))) :
    s.writeEach action table v data = some (s.with pointer data) := by
  induction data generalizing s v pointer with
  | nil =>
      rw [System.writeEach, System.with, MemorySystem.store_nil]
  | cons value rest ih =>
      have hfirst := h 0 (Nat.succ_pos _)
      rw [add32_zero hv] at hfirst
      have hlater : ∀ i < rest.length, target (s.with pointer [value]).memory table
          (add32 (add32 v 1) i) = some (.host (pointer + 1 + i)) := by
        intro i hi
        rw [target_with, add32_add32, h (i + 1) (by simpa using hi)]
        congr 2
        omega
      rw [System.writeEach, write8_host hfirst]
      change (s.with pointer [value]).writeEach action table (add32 v 1) rest = _
      rw [ih (pointer + 1) (add32_lt v 1) hlater]
      exact congrArg some (with_append s pointer [value] rest)

theorem writeEach_unmapped {data : List UInt8} (hv : v < 2 ^ 32)
    (h : ∀ i < data.length, target s.memory table (add32 v i) = some .unmapped) :
    s.writeEach action table v data = some s := by
  induction data generalizing v with
  | nil => rfl
  | cons value rest ih =>
      have hfirst := h 0 (Nat.succ_pos _)
      rw [add32_zero hv] at hfirst
      rw [System.writeEach, write8_unmapped hfirst]
      refine ih (add32_lt v 1) fun i hi => ?_
      rw [add32_add32]
      exact h (i + 1) (by simpa using hi)

theorem read8_bytes {pointer : Nat} (h : target s.memory table u = some (.host pointer)) :
    s.read8 table u = some (s.memory.bytes pointer).toNat :=
  @read8_host s.memory table u s.memory.bytes s.gpu pointer h

theorem exists_target (m : MemorySystem) (pointer : Nat) (h : pointer ≠ 0) :
    ∃ table, target m table 0 = some (.host pointer) := by
  refine ⟨fun _ => ⟨.memory, ⟨some ⟨pointer, 1⟩, 0⟩⟩, ?_⟩
  simp [target, MemoryRef.getPtr, h]

theorem SameEffect.bytes_eq {pointer : Nat} (h : SameEffect (some s) (some t))
    (hs : target s.memory table u = some (.host pointer))
    (ht : target t.memory table u = some (.host pointer)) :
    s.memory.bytes pointer = t.memory.bytes pointer := by
  have hread := h table u
  rw [read8_bytes hs, read8_bytes ht] at hread
  exact UInt8.toNat_inj.mp (Option.some.inj hread)

theorem SameEffect.returns {x : Option System} (h : SameEffect (some s) x) :
    ∃ t, x = some t ∧ SameEffect (some s) (some t) := by
  cases x with
  | none => exact h.elim
  | some t => exact ⟨t, rfl, h⟩

end Store

/-- `Write` of a type of `width` bytes has the effect of writing its single bytes, whatever memory
and the registers hold. -/
def WriteAgrees (m : MemorySystem) (table : PageTable) (width v : Nat) : Prop :=
  ∀ action bytes gpu data, SameEffect ((content m bytes gpu).write action table width v data)
    ((content m bytes gpu).writeEach action table v (toBytes width data))

/-- A write starts on a page that the next one continues, on a page that aborts, or on a register
that cannot be written at this width. -/
def WriteWhole (m : MemorySystem) (table : PageTable) (width v : Nat) : Prop :=
  match target m table v with
  | none => True
  | some (.register addr) => width = 4 → decodeRegister addr = none
  | some _ => Crosses v width → Adjoins m table v

/-- The bytes `1` to `width`. -/
def countingBytes (width : Nat) : List UInt8 :=
  (List.range width).map fun i => UInt8.ofNat (i + 1)

theorem length_countingBytes (width : Nat) : (countingBytes width).length = width := by
  simp [countingBytes]

theorem countingBytes_getElem? {width i : Nat} (h : i < width) :
    (countingBytes width)[i]? = some (UInt8.ofNat (i + 1)) := by
  simp [countingBytes, h]

theorem ofNat_succ_inj {i j : Nat} (hi : i < 8) (hj : j < 8)
    (h : UInt8.ofNat (i + 1) = UInt8.ofNat (j + 1)) : i = j := by
  have hnat := UInt8.toNat_inj.mpr h
  rw [UInt8.toNat_ofNat', UInt8.toNat_ofNat'] at hnat
  omega

theorem ofNat_succ_ne_zero {i : Nat} (hi : i < 8) : UInt8.ofNat (i + 1) ≠ 0 := by
  intro h
  have hnat := UInt8.toNat_inj.mpr h
  rw [UInt8.toNat_ofNat'] at hnat
  simp at hnat
  omega

section Writes

variable {m : MemorySystem} {table : PageTable} {v width : Nat}
  {action : Nat → System → System} {bytes : Nat → UInt8} {gpu : GPU}

theorem write_content (data : Nat) :
    (content m bytes gpu).write action table width v data =
      (target m table v).bind ((content m bytes gpu).store action width data) := rfl

theorem writeEach_abort {s : System} {data : List UInt8} (hdata : data ≠ [])
    (h : ∀ value, s.write8 action table v value = none) :
    s.writeEach action table v data = none := by
  cases data with
  | nil => exact absurd rfl hdata
  | cons value rest => rw [System.writeEach, h]; rfl

theorem write8_abort {s : System} (h : target s.memory table v = none) (value : Nat) :
    s.write8 action table v value = none := by
  rw [System.write8, System.write, h]
  rfl

theorem write8_register {s : System} {addr : Nat}
    (h : target s.memory table v = some (.register addr)) (value : Nat) :
    s.write8 action table v value = none := by
  rw [System.write8, System.write, h]
  rfl

theorem writeEach_nextPage {s : System} {data : List UInt8} {k : Nat} (hv : v < 2 ^ 32)
    (hk : k < data.length) (hstep : pageSize = v % pageSize + k) :
    s.writeEach action table v data = (s.writeEach action table v (data.take k)).bind fun t =>
      t.writeEach action table (nextPage v) (data.drop k) := by
  have hnext : add32 v k = nextPage v := by
    rw [add32_nextPage (by omega), show k - (pageSize - v % pageSize) = 0 by omega,
      add32_zero (nextPage_lt v)]
  conv_lhs => rw [← List.take_append_drop k data]
  rw [writeEach_append _ _ hv, List.length_take, min_eq_left (by omega), hnext]

theorem target_nextPage_shift {i : Nat} (hm : m.Placed) (hi : i < pageSize) :
    target m table (add32 (nextPage v) i) =
      (target m table (nextPage v)).map (Target.shift i) := by
  apply target_shift hm (nextPage_lt v)
  rw [nextPage_mod]
  omega

theorem adjoins_of_write {k pointer : Nat} (hm : m.Placed) (hv : v < 2 ^ 32) (hwidth : width ≤ 8)
    (hk : 0 < k) (hkw : k < width) (hstep : pageSize = v % pageSize + k)
    (htarget : target m table v = some (.host pointer))
    (h : SameEffect (some ((content m (fun _ => 0) gpu).with pointer (countingBytes width)))
      ((content m (fun _ => 0) gpu).writeEach action table v (countingBytes width))) :
    target m table (nextPage v) = some (.host (pointer + k)) := by
  obtain ⟨t, ht, hsame⟩ := h.returns
  have hlength := length_countingBytes width
  have hbig : width ≤ pageSize := hwidth.trans (by decide)
  have hcounting : (countingBytes width)[k]? = some (UInt8.ofNat (k + 1)) :=
    countingBytes_getElem? hkw
  have hnext := targets_of_writeEach hv ht k (by omega)
  rw [add32_nextPage (by omega), show k - (pageSize - v % pageSize) = 0 by omega,
    add32_zero (nextPage_lt v)] at hnext
  have hfront : (content m (fun _ => 0) gpu).writeEach action table v
      ((countingBytes width).take k) =
        some ((content m (fun _ => 0) gpu).with pointer ((countingBytes width).take k)) := by
    refine writeEach_host _ hv fun i hi => ?_
    rw [List.length_take] at hi
    exact (target_shift hm hv (by omega)).trans (by rw [htarget]; rfl)
  rw [writeEach_nextPage hv (by omega) hstep, hfront, Option.bind_some] at ht
  have hwide : ∀ i < width, ((content m (fun _ => 0) gpu).with pointer
      (countingBytes width)).memory.bytes (pointer + i) = UInt8.ofNat (i + 1) := fun i hi =>
    MemorySystem.store_inside _ _ _ (countingBytes_getElem? hi)
  rcases hnext with hnone | ⟨q, hq⟩
  · rw [writeEach_unmapped (nextPage_lt v) fun i hi => by
      rw [List.length_drop] at hi
      exact (target_nextPage_shift hm (by omega)).trans (congrArg _ hnone)] at ht
    obtain rfl := Option.some.inj ht
    obtain ⟨table', htable'⟩ := exists_target m (pointer + k) (by omega)
    have hbyte := hsame.bytes_eq htable' htable'
    rw [hwide k hkw] at hbyte
    have hold : ((content m (fun _ => 0) gpu).with pointer
        ((countingBytes width).take k)).memory.bytes (pointer + k) = 0 := by
      refine (MemorySystem.store_outside _ _ _ (.inr ?_)).trans rfl
      rw [List.length_take]
      omega
    rw [hold] at hbyte
    exact absurd hbyte (ofNat_succ_ne_zero (by omega))
  · rw [writeEach_host q (nextPage_lt v) fun i hi => by
      rw [List.length_drop] at hi
      exact (target_nextPage_shift hm (by omega)).trans (congrArg _ hq)] at ht
    obtain rfl := Option.some.inj ht
    have hbyte := hsame.bytes_eq hq hq
    have hsingle : (((content m (fun _ => 0) gpu).with pointer
        ((countingBytes width).take k)).with q ((countingBytes width).drop k)).memory.bytes q =
          UInt8.ofNat (k + 1) := by
      apply MemorySystem.store_inside (i := 0)
      rw [List.getElem?_drop, Nat.add_zero, hcounting]
    rw [hsingle] at hbyte
    by_cases hinside : pointer ≤ q ∧ q < pointer + width
    · have hindex := hwide (q - pointer) (by omega)
      rw [show pointer + (q - pointer) = q by omega, hbyte] at hindex
      have hoffset := ofNat_succ_inj (by omega) (by omega) hindex
      obtain rfl : q = pointer + k := by omega
      exact hq
    · have hold : ((content m (fun _ => 0) gpu).with pointer
          (countingBytes width)).memory.bytes q = 0 := by
        refine (MemorySystem.store_outside _ _ _ ?_).trans rfl
        rw [hlength]
        omega
      rw [hold] at hbyte
      exact absurd hbyte.symm (ofNat_succ_ne_zero (by omega))

theorem unmapped_of_write {k : Nat} (hm : m.Placed) (hv : v < 2 ^ 32) (hwidth : width ≤ 8)
    (hkw : k < width) (hstep : pageSize = v % pageSize + k)
    (htarget : target m table v = some .unmapped)
    (h : SameEffect (some (content m (fun _ => 0) gpu))
      ((content m (fun _ => 0) gpu).writeEach action table v (countingBytes width))) :
    target m table (nextPage v) = some .unmapped := by
  obtain ⟨t, ht, hsame⟩ := h.returns
  have hlength := length_countingBytes width
  have hbig : width ≤ pageSize := hwidth.trans (by decide)
  have hnext := targets_of_writeEach hv ht k (by omega)
  rw [add32_nextPage (by omega), show k - (pageSize - v % pageSize) = 0 by omega,
    add32_zero (nextPage_lt v)] at hnext
  rcases hnext with hnone | ⟨q, hq⟩
  · exact hnone
  · have hfront : (content m (fun _ => 0) gpu).writeEach action table v
        ((countingBytes width).take k) = some (content m (fun _ => 0) gpu) := by
      refine writeEach_unmapped hv fun i hi => ?_
      rw [List.length_take] at hi
      exact (target_shift hm hv (by omega)).trans (by rw [htarget]; rfl)
    rw [writeEach_nextPage hv (by omega) hstep, hfront, Option.bind_some,
      writeEach_host q (nextPage_lt v) fun i hi => by
        rw [List.length_drop] at hi
        exact (target_nextPage_shift hm (by omega)).trans (congrArg _ hq)] at ht
    obtain rfl := Option.some.inj ht
    have hbyte := hsame.bytes_eq hq hq
    have hsingle : ((content m (fun _ => 0) gpu).with q
        ((countingBytes width).drop k)).memory.bytes q = UInt8.ofNat (k + 1) := by
      apply MemorySystem.store_inside (i := 0)
      rw [List.getElem?_drop, Nat.add_zero, countingBytes_getElem? hkw]
    rw [hsingle] at hbyte
    exact absurd hbyte.symm (ofNat_succ_ne_zero (by omega))

theorem store_host (s : System) (data pointer : Nat) :
    s.store action width data (.host pointer) = some (s.with pointer (toBytes width data)) := rfl

theorem toBytes_counting (width : Nat) :
    toBytes width (ofBytes (countingBytes width)) = countingBytes width := by
  have hbytes := toBytes_ofBytes (countingBytes width)
  rwa [length_countingBytes] at hbytes

theorem writeAgrees_iff (hm : m.Placed) (hv : v < 2 ^ 32) (hmore : 2 ≤ width)
    (hwidth : width ≤ 8) : WriteAgrees m table width v ↔ WriteWhole m table width v := by
  have hbig : width ≤ pageSize := hwidth.trans (by decide)
  have hnonempty : ∀ data, toBytes width data ≠ [] := fun data =>
    List.ne_nil_of_length_pos (by rw [length_toBytes]; omega)
  have hcrossing : Crosses v width → ∃ k, 0 < k ∧ k < width ∧ pageSize = v % pageSize + k := by
    intro hcross
    unfold Crosses at hcross
    have hoffset : v % pageSize < pageSize := Nat.mod_lt _ (by decide)
    exact ⟨pageSize - v % pageSize, by omega, by omega, by omega⟩
  unfold WriteAgrees WriteWhole
  cases htarget : target m table v with
  | none =>
      refine iff_of_true (fun action bytes gpu data => ?_) trivial
      rw [write_content, htarget, writeEach_abort (hnonempty data)
        (write8_abort (s := content m bytes gpu) htarget)]
      exact SameEffect.refl none
  | some t =>
      cases t with
      | register addr =>
          dsimp only
          constructor
          · rintro h rfl
            have hwrite := h (fun _ s => s) (fun _ => 0) ⟨fun _ => 0, fun _ => 0⟩ 0
            rw [write_content, htarget,
              writeEach_abort (hnonempty 0)
                (write8_register (s := content m (fun _ => 0) ⟨fun _ => 0, fun _ => 0⟩)
                  htarget)] at hwrite
            cases hdecode : decodeRegister addr with
            | none => rfl
            | some register =>
                rw [Option.bind_some, System.store, if_pos rfl, System.writeReg, hdecode] at hwrite
                cases register with
                | lcd index => exact hwrite.elim
                | gpu index => exact hwrite.elim
          · intro h action bytes gpu data
            rw [write_content, htarget, writeEach_abort (hnonempty data)
              (write8_register (s := content m bytes gpu) htarget), Option.bind_some, System.store]
            by_cases hfour : width = 4
            · rw [if_pos hfour, System.writeReg, h hfour]
              exact SameEffect.refl none
            · rw [if_neg hfour]
              exact SameEffect.refl none
      | host pointer =>
          dsimp only
          constructor
          · intro h hcross
            obtain ⟨k, hk, hkw, hstep⟩ := hcrossing hcross
            have hwrite := h (fun _ s => s) (fun _ => 0) ⟨fun _ => 0, fun _ => 0⟩
              (ofBytes (countingBytes width))
            rw [write_content, htarget, Option.bind_some, store_host, toBytes_counting] at hwrite
            have hnext := adjoins_of_write hm hv hwidth hk hkw hstep htarget hwrite
            rw [Adjoins, hnext, htarget, Option.map_some, Target.shift,
              show pageSize - v % pageSize = k by omega]
          · intro h action bytes gpu data
            have hpieces := (pieces_iff hm hv hbig).mpr h
            rw [write_content, htarget, Option.bind_some, store_host,
              writeEach_host pointer hv fun i hi => by
                rw [length_toBytes] at hi
                exact (hpieces i hi).trans (by rw [htarget]; rfl)]
            exact SameEffect.refl _
      | unmapped =>
          dsimp only
          constructor
          · intro h hcross
            obtain ⟨k, hk, hkw, hstep⟩ := hcrossing hcross
            have hwrite := h (fun _ s => s) (fun _ => 0) ⟨fun _ => 0, fun _ => 0⟩
              (ofBytes (countingBytes width))
            rw [write_content, htarget, Option.bind_some, toBytes_counting] at hwrite
            rw [Adjoins, unmapped_of_write hm hv hwidth hkw hstep htarget hwrite, htarget]
            rfl
          · intro h action bytes gpu data
            have hpieces := (pieces_iff hm hv hbig).mpr h
            rw [write_content, htarget, Option.bind_some,
              writeEach_unmapped hv fun i hi => by
                rw [length_toBytes] at hi
                exact (hpieces i hi).trans (by rw [htarget]; rfl)]
            exact SameEffect.refl _

end Writes

end Cytrus.Memory
