import Cytrus.Kernel.AddressSpace

/-!
# Querying the memory map

`QueryProcessMemory` walks from the area that holds the address in both
directions, to the first area with another state or other permissions. The walk
stops at both ends of the map. What it returns is the maximal run of alike
addresses around the one asked for.

## Implementation notes

Iterators are positions in the order of the map. A reverse iterator is named by
the position after the area it points to, as its `base()`, so that `crend()` is
position zero and `--` steps to the next position.
-/

namespace Cytrus.Kernel

open Support Support.Segment Memory

/-! ## The two directions of a search -/

section Search

variable {α : Type*} {p : α → Bool} {l pre post : List α} {v : α}

/-- `std::find_if` from a position to `end()`. -/
def findIf (p : α → Bool) (l : List α) (it : Nat) : Nat :=
  it + (l.drop it).findIdx p

/-- `std::find_if` from a reverse iterator to `crend()`. -/
def findIfReverse (p : α → Bool) (l : List α) (it : Nat) : Nat :=
  it - (l.take it).reverse.findIdx p

theorem exists_findIdx_split (p : α → Bool) (l : List α) :
    ∃ run rest, l = run ++ rest ∧ run.length = l.findIdx p ∧ (∀ x ∈ run, p x = false) ∧
      ∀ x ∈ rest.head?, p x = true := by
  induction l with
  | nil => exact ⟨[], [], rfl, rfl, by simp, by simp⟩
  | cons x l ih =>
      cases hx : p x with
      | true => exact ⟨[], x :: l, rfl, by simp [List.findIdx_cons, hx], by simp, by simp [hx]⟩
      | false =>
          obtain ⟨run, rest, rfl, hlength, hrun, hrest⟩ := ih
          refine ⟨x :: run, rest, rfl, ?_, ?_, hrest⟩
          · simp [List.findIdx_cons, hx, hlength]
          · simpa [hx] using hrun

theorem exists_run (pre post : List α) (hv : p v = false) :
    ∃ front run rest, pre ++ v :: post = front ++ run ++ rest ∧ v ∈ run ∧
      findIfReverse p (pre ++ v :: post) pre.length = front.length ∧
      findIf p (pre ++ v :: post) pre.length = (front ++ run).length ∧
      (∀ x ∈ run, p x = false) ∧ (∀ x ∈ front.getLast?, p x = true) ∧
      ∀ x ∈ rest.head?, p x = true := by
  obtain ⟨back, front, hpre, hback, hbackRun, hfront⟩ := exists_findIdx_split p pre.reverse
  obtain ⟨run, rest, rfl, hrun, hrunRun, hrest⟩ := exists_findIdx_split p post
  have hpre' : pre = front.reverse ++ back.reverse := by
    rw [← List.reverse_append, ← hpre, List.reverse_reverse]
  refine ⟨front.reverse, back.reverse ++ v :: run, rest, by simp [hpre'], by simp, ?_, ?_, ?_,
    by simpa using hfront, hrest⟩
  · unfold findIfReverse
    rw [List.take_left, ← hback, hpre']
    simp
  · unfold findIf
    rw [List.drop_left, List.findIdx_cons, hv, ← hrun, hpre']
    simp [Nat.add_assoc]
  · intro x hx
    simp only [List.mem_append, List.mem_reverse, List.mem_cons] at hx
    rcases hx with hx | rfl | hx
    · exact hbackRun x hx
    · exact hv
    · exact hrunRun x hx

theorem getElem?_run_first {front run rest : List α} (hv : v ∈ run) :
    (front ++ run ++ rest)[front.length]? = run.head? := by
  obtain ⟨x, tail, rfl⟩ := List.exists_cons_of_ne_nil (List.ne_nil_of_mem hv)
  simp

theorem getElem?_run_last {front run rest : List α} (hv : v ∈ run) :
    (front ++ run ++ rest)[(front ++ run).length - 1]? = run.getLast? := by
  have hpos := List.length_pos_of_mem hv
  rw [List.getElem?_append_left (by simp; omega), ← List.getLast?_eq_getElem?,
    List.getLast?_append, Option.or_of_isSome (by simpa using List.ne_nil_of_mem hv)]

end Search

/-- The number that `svcQueryMemory` reports for a state. -/
def MemoryState.number : MemoryState → Nat
  | free => 0
  | reserved => 1
  | io => 2
  | static => 3
  | code => 4
  | privateMem => 5
  | shared => 6
  | continuous => 7
  | aliased => 8
  | aliasMem => 9
  | aliasCode => 10
  | locked => 11

structure MemoryInfo where
  baseAddress : Nat
  size : Nat
  permission : Nat
  state : Nat
  deriving DecidableEq, Repr

structure PageInfo where
  flags : Nat
  deriving DecidableEq, Repr

/-- The handle that names the calling process. -/
def currentProcess : Nat := 0xFFFF8001

/-- The address spaces of the processes that handles name. -/
abbrev Processes := Nat → Option VMManager

/-- The part of `QueryProcessMemory` after the process is found. -/
def VMManager.query (vm : VMManager) (addr : Nat) :
    Exec Fault ResultCode Processes (MemoryInfo × PageInfo) := do
  Exec.require .invalidAddress (vm.findVMA addr ≠ none)
  let it := vm.vmaMap.findIdx fun entry => some entry.1 = vm.findVMA addr
  let vma ← Exec.read .invalidIterator fun _ => vm.areas[it]?
  let mismatch := fun v : VirtualMemoryArea =>
    v.permissions ≠ vma.permissions || v.meminfoState ≠ vma.meminfoState
  -- Both iterators step back by one after the search; the area before the position that names
  -- the reverse iterator is the one it points to.
  let lower := findIfReverse mismatch vm.areas it + 1
  let first ← Exec.read .invalidIterator fun _ => vm.areas[lower - 1]?
  let upper := findIf mismatch vm.areas it - 1
  let last ← Exec.read .invalidIterator fun _ => vm.areas[upper]?
  pure (⟨first.base, sub32 (add32 last.base last.size) first.base, vma.permissions.bits,
    vma.meminfoState.number⟩, ⟨0⟩)

def queryProcessMemory (processHandle addr : Nat) :
    Exec Fault ResultCode Processes (MemoryInfo × PageInfo) := do
  let processes ← Exec.get
  match processes processHandle with
  | none => Exec.throw .invalidHandle
  | some vm => vm.query addr

theorem VMAPermission.bits_injective : Function.Injective bits := by
  intro p q h
  cases p <;> cases q <;> first | rfl | cases h

theorem MemoryState.number_injective : Function.Injective number := by
  intro p q h
  cases p <;> cases q <;> first | rfl | cases h

namespace VMManager

variable {vm : VMManager} {l pre post : List VirtualMemoryArea} {v : VirtualMemoryArea}
  {addr x s t : Nat} {info : MemoryInfo}

/-- The address has the state and the permissions that the information names. -/
def Reports (vm : VMManager) (info : MemoryInfo) (address : Nat) : Prop :=
  ∃ c, vm.view address = some c ∧ c.permissions.bits = info.permission ∧
    c.meminfoState.number = info.state

/-- The information is about whole pages around the address that are alike, and neither the
page before nor the page after is. -/
structure MaximalRun (vm : VMManager) (addr : Nat) (info : MemoryInfo) : Prop where
  base_dvd : pageSize ∣ info.baseAddress
  size_dvd : pageSize ∣ info.size
  le_max : info.baseAddress + info.size ≤ maxAddress
  base_le : info.baseAddress ≤ addr
  lt_stop : addr < info.baseAddress + info.size
  reports : ∀ x, info.baseAddress ≤ x → x < info.baseAddress + info.size → vm.Reports info x
  before : ∀ x, x < info.baseAddress → info.baseAddress ≤ x + pageSize → ¬ vm.Reports info x
  after : ∀ x, info.baseAddress + info.size ≤ x → x < info.baseAddress + info.size + pageSize →
    ¬ vm.Reports info x

/-- The areas are alike in what a query reports. -/
def Alike (v w : VirtualMemoryArea) : Prop :=
  w.permissions = v.permissions ∧ w.meminfoState = v.meminfoState

theorem mismatch_eq_false {w : VirtualMemoryArea} :
    (w.permissions ≠ v.permissions || w.meminfoState ≠ v.meminfoState) = false ↔
      Alike v w := by
  simp [Alike]

theorem Layout.reports_iff {w : VirtualMemoryArea} (h : vm.Layout l) (hw : w ∈ l)
    (hlo : w.base ≤ x) (hhi : x < w.base + w.size) (hp : info.permission = v.permissions.bits)
    (hs : info.state = v.meminfoState.number) : vm.Reports info x ↔ Alike v w := by
  obtain ⟨pre, post, rfl⟩ := List.append_of_mem hw
  unfold Reports Alike
  rw [h.view_eq hlo hhi, hp, hs]
  constructor
  · rintro ⟨c, hc, hperm, hstate⟩
    obtain rfl := Option.some.inj hc
    exact ⟨VMAPermission.bits_injective hperm, MemoryState.number_injective hstate⟩
  · rintro ⟨hperm, hstate⟩
    exact ⟨_, rfl, congrArg _ hperm, congrArg _ hstate⟩

theorem Layout.findIdx_eq (h : vm.Layout (pre ++ v :: post)) :
    (vm.vmaMap.findIdx fun entry => some entry.1 = some v.base) = pre.length := by
  have hbefore : ∀ e ∈ entries pre, decide (some e.1 = some v.base) = false := by
    intro e he
    have hlt := h.sorted_split.lt_of_mem_pre e he
    simp only [decide_eq_false_iff_not, Option.some.injEq]
    exact hlt.ne
  rw [h.map_split, List.findIdx_append, if_neg]
  · simp [List.findIdx_cons, entries]
  · rw [List.findIdx_eq_length_of_false hbefore]
    exact lt_irrefl _

theorem stop_getLast (h : Tiled s l t) {w : VirtualMemoryArea} (hw : w ∈ l.getLast?) :
    w.base + w.size = t := by
  obtain ⟨init, rfl⟩ := List.getLast?_eq_some_iff.mp hw
  obtain ⟨mid, -, -, -, hend⟩ := tiled_append.mp h
  simpa using hend

theorem Layout.size_ge (h : vm.Layout l) {w : VirtualMemoryArea} (hw : w ∈ l) :
    pageSize ≤ w.size :=
  Nat.le_of_dvd (h.bounds hw).1 (h.paged w hw)

section Run

variable {front run rest : List VirtualMemoryArea}

theorem Layout.run_limits (h : vm.Layout (front ++ run ++ rest)) (hs : Tiled 0 front s)
    (ht : Tiled s run t) (hv : v ∈ run) :
    pageSize ∣ s ∧ pageSize ∣ t ∧ t ≤ maxAddress ∧ s ≤ v.base ∧ v.base + v.size ≤ t := by
  have hpaged : ∀ w ∈ front ++ run, pageSize ∣ w.size := fun w hw =>
    h.paged w (List.mem_append_left _ hw)
  have hsdvd : pageSize ∣ s := hs.dvd (dvd_zero _) fun w hw => hpaged w (by simp [hw])
  have htdvd : pageSize ∣ t := ht.dvd hsdvd fun w hw => hpaged w (by simp [hw])
  obtain ⟨t', hrun, hrest⟩ := tiled_append.mp h.tiled
  obtain rfl := hrun.right_unique (hs.append ht)
  have hv := ht.start_lt hv
  simp only [VirtualMemoryArea.start_eq, VirtualMemoryArea.stop_eq] at hv
  exact ⟨hsdvd, htdvd, hrest.le, hv.1, hv.2.2⟩

theorem Layout.maximalRun (h : vm.Layout (front ++ run ++ rest)) (hs : Tiled 0 front s)
    (ht : Tiled s run t) (hv : v ∈ run) (hlo : v.base ≤ addr) (hhi : addr < v.base + v.size)
    (hrun : ∀ w ∈ run, Alike v w) (hfront : ∀ w ∈ front.getLast?, ¬ Alike v w)
    (hrest : ∀ w ∈ rest.head?, ¬ Alike v w) :
    vm.MaximalRun addr ⟨s, t - s, v.permissions.bits, v.meminfoState.number⟩ := by
  obtain ⟨hsdvd, htdvd, htmax, hsv, hvt⟩ := h.run_limits hs ht hv
  have hst : s + (t - s) = t := by omega
  have hreports : ∀ w ∈ front ++ run ++ rest, ∀ x, w.base ≤ x → x < w.base + w.size →
      (vm.Reports ⟨s, t - s, v.permissions.bits, v.meminfoState.number⟩ x ↔ Alike v w) :=
    fun w hw x hlo hhi => h.reports_iff hw hlo hhi rfl rfl
  constructor <;> simp only [hst]
  · exact hsdvd
  · exact Nat.dvd_sub htdvd hsdvd
  · exact htmax
  · omega
  · omega
  · intro x hsx hxt
    obtain ⟨pre', w, post', rfl, -, hwx, hxw, -⟩ := ht.split_at hsx hxt
    exact (hreports w (by simp) x hwx hxw).mpr (hrun w (by simp))
  · intro x hxs hsx hreport
    -- The page before belongs to the last area of the front.
    cases hlast : front.getLast? with
    | none =>
        rw [List.getLast?_eq_none_iff] at hlast
        subst hlast
        have hzero : 0 = s := hs
        omega
    | some w =>
        have hw := List.mem_of_getLast? hlast
        have hstop := stop_getLast hs hlast
        have hsize := h.size_ge (w := w) (by simp [hw])
        exact hfront w hlast ((hreports w (by simp [hw]) x (by omega) (by omega)).mp hreport)
  · intro x htx hxt hreport
    cases hhead : rest.head? with
    | none =>
        rw [List.head?_eq_none_iff] at hhead
        have hend := h.tiled.right_unique (hhead ▸ (List.append_nil (front ++ run)).symm ▸
          hs.append ht)
        obtain ⟨c, hc, -⟩ := hreport
        rw [vm.view_of_le (by omega)] at hc
        contradiction
    | some w =>
        obtain ⟨tail, rfl⟩ := List.head?_eq_some_iff.mp hhead
        have hsize := h.size_ge (w := w) (by simp)
        obtain ⟨t', hfrontRun, hstart, -⟩ := tiled_append.mp h.tiled
        obtain rfl := hfrontRun.right_unique (hs.append ht)
        simp only [VirtualMemoryArea.start_eq] at hstart
        exact hrest w rfl ((hreports w (by simp) x (by omega) (by omega)).mp hreport)

end Run

theorem Layout.query_eq (h : vm.Layout l) (haddr : addr < maxAddress) (processes : Processes) :
    ∃ info, vm.query addr processes = .value (info, ⟨0⟩) processes ∧
      vm.MaximalRun addr info := by
  have hmax : maxAddress < 2 ^ 32 := by decide
  obtain ⟨pre, v, post, rfl, hlo, hhi⟩ := h.exists_area haddr
  obtain ⟨front, run, rest, hsplit, hv, hlower, hupper, hrun, hfront, hrest⟩ :=
    exists_run pre post
      (p := fun w => w.permissions ≠ v.permissions || w.meminfoState ≠ v.meminfoState)
      (mismatch_eq_false.mpr ⟨rfl, rfl⟩)
  have hl := hsplit ▸ h
  obtain ⟨t, hfrontRun, -⟩ := tiled_append.mp hl.tiled
  obtain ⟨s, hs, ht⟩ := tiled_append.mp hfrontRun
  obtain ⟨-, -, htmax, hsv, hvt⟩ := hl.run_limits hs ht hv
  refine ⟨⟨s, t - s, v.permissions.bits, v.meminfoState.number⟩, ?_, ?_⟩
  · obtain ⟨first, hfirst⟩ := Option.isSome_iff_exists.mp
      (List.isSome_head?.mpr (List.ne_nil_of_mem hv))
    obtain ⟨last, hlast⟩ := Option.isSome_iff_exists.mp
      (List.getLast?_isSome.mpr (List.ne_nil_of_mem hv))
    have hstart : first.base = s := by
      obtain ⟨tail, rfl⟩ := List.head?_eq_some_iff.mp hfirst
      exact ht.1
    have hstop : last.base + last.size = t := stop_getLast ht hlast
    have hsize : sub32 (add32 last.base last.size) first.base = t - s := by
      rw [add32_of_lt (by omega), hstop, hstart, sub32_of_le (by omega) (by omega)]
    unfold query
    simp only [Exec.bind_eq_value, Exec.require_eq_value, Exec.read_eq_value, Exec.pure_eq_value]
    rw [h.findVMA_eq hlo hhi, h.findIdx_eq, h.areas_eq]
    refine ⟨⟨⟩, processes, ⟨by simp, rfl⟩, v, processes, ⟨by simp, rfl⟩, first, processes,
      ⟨?_, rfl⟩, last, processes, ⟨?_, rfl⟩, by rw [hsize, hstart], rfl⟩
    · rw [hlower, hsplit, Nat.add_sub_cancel, getElem?_run_first hv, hfirst]
    · rw [hupper, hsplit, getElem?_run_last hv, hlast]
  · refine hl.maximalRun hs ht hv hlo hhi (fun w hw => mismatch_eq_false.mp (hrun w hw)) ?_ ?_
    · intro w hw halike
      exact absurd (hfront w hw) (by rw [mismatch_eq_false.mpr halike]; decide)
    · intro w hw halike
      exact absurd (hrest w hw) (by rw [mismatch_eq_false.mpr halike]; decide)

end VMManager

end Cytrus.Kernel
