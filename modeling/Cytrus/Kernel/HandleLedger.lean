import Cytrus.Kernel.HandleTable

/-!
# Handle tables over whole runs

The ledger of a run is the table with the log of the handles it has created,
newest first. An entry is open until a `Close` selects its slot or the table is
cleared. The open entries are what the table knows, the free slots form one
list through the generations, and the generations of the log count backwards.
-/

namespace Cytrus.Kernel.HandleTable

open Support
open Function (update_of_ne update_self)

variable {α : Type}

/-! ## Lists through an array -/

/-- Following `next` from `start` visits the places of the path and ends at `stop`. -/
def Links (next : Nat → Nat) (stop : Nat) : Nat → List Nat → Prop
  | start, [] => start = stop
  | start, place :: rest => start = place ∧ Links next stop (next place) rest

variable {next : Nat → Nat} {stop start place value : Nat} {path : List Nat}

theorem Links.update (h : Links next stop start path) (hp : place ∉ path) :
    Links (Function.update next place value) stop start path := by
  induction path generalizing start with
  | nil => exact h
  | cons p rest ih =>
      obtain ⟨rfl, hrest⟩ := h
      rw [List.mem_cons, not_or] at hp
      refine ⟨rfl, ?_⟩
      rw [update_of_ne (Ne.symm hp.1)]
      exact ih hrest hp.2

theorem Links.exists_cons (h : Links next stop start path) (hne : start ≠ stop) :
    ∃ rest, path = start :: rest ∧ Links next stop (next start) rest := by
  cases path with
  | nil => exact (hne h).elim
  | cons p rest =>
      obtain ⟨rfl, hrest⟩ := h
      exact ⟨rest, rfl, hrest⟩

theorem links_succ (n : Nat) : ∀ start, Links (fun i => i + 1) (start + n) start
    (List.range' start n) := by
  induction n with
  | zero => exact fun start => rfl
  | succ n ih =>
      intro start
      refine ⟨rfl, ?_⟩
      rw [show start + (n + 1) = start + 1 + n by omega]
      exact ih (start + 1)

/-! ## Runs -/

/-- A handle that was created, with its object, how many handles were created before it, and
whether it was closed since. -/
structure Entry (α : Type) where
  handle : Nat
  object : α
  serial : Nat
  closed : Bool

/-- A table and the log of the handles it has created, newest first. -/
structure Ledger (α : Type) where
  table : HandleTable α
  log : List (Entry α)

/-- The calls that change a table. -/
inductive Call (α : Type) where
  | create (obj : α)
  | duplicate (current : Current α) (handle : Nat)
  | close (handle : Nat)
  | clear

/-- Mark an entry as closed by a value that selects its slot and generation. -/
def Entry.closeBy (handle : Nat) (e : Entry α) : Entry α :=
  if e.handle = handle % 2 ^ 31 then { e with closed := true } else e

namespace Ledger

/-- The ledger after a handle for an object was asked for. -/
def record (l : Ledger α) (obj : α) : Outcome Fault ResultCode (HandleTable α) Nat → Ledger α
  | .value handle table => ⟨table, ⟨handle, obj, l.log.length, false⟩ :: l.log⟩
  | .error _ table => ⟨table, l.log⟩
  | .fault _ => l

/-- One call on the table. -/
def apply (l : Ledger α) : Call α → Ledger α
  | .create obj => l.record obj (create obj l.table)
  | .duplicate current handle =>
      match l.table.getGeneric current handle with
      | some object => l.record object (duplicate current handle l.table)
      | none => l
  | .close handle =>
      match close handle l.table with
      | .value _ table => ⟨table, l.log.map (Entry.closeBy handle)⟩
      | .error _ table => ⟨table, l.log⟩
      | .fault _ => l
  | .clear => ⟨l.table.clear, l.log.map fun e => { e with closed := true }⟩

/-- The ledger after a sequence of calls on a new table. -/
def run (calls : List (Call α)) : Ledger α := calls.foldl apply ⟨new, []⟩

end Ledger

/-- The generation that the `n`-th handle gets. -/
def generationOf (n : Nat) : Nat := n % 32767 + 1

theorem generationOf_bounds (n : Nat) : 0 < generationOf n ∧ generationOf n < 2 ^ 15 := by
  unfold generationOf
  omega

theorem generationOf_succ (n : Nat) : generationOf (n + 1) = succGeneration (generationOf n) := by
  unfold generationOf succGeneration
  split <;> omega

/-- An entry as the table holds it. -/
structure Held (table : HandleTable α) (e : Entry α) (slot : Nat) : Prop where
  object_eq : table.objects slot = some e.object
  generation_eq : table.generations slot = generationOf e.serial

/-- What holds of every ledger. -/
structure Consistent (l : Ledger α) : Prop where
  next_eq : l.table.nextGeneration = generationOf l.log.length
  free : ∃ path, Links l.table.generations maxCount l.table.nextFreeSlot path ∧ path.Nodup ∧
    ∀ slot, slot ∈ path ↔ slot < maxCount ∧ l.table.objects slot = none
  serial_lt : ∀ e ∈ l.log, e.serial < l.log.length
  handle_eq : ∀ e ∈ l.log, ∃ slot < maxCount, e.handle = makeHandle slot (generationOf e.serial) ∧
    (e.closed = false → Held l.table e slot)
  entry : ∀ slot < maxCount, ∀ obj, l.table.objects slot = some obj →
    ∃ e ∈ l.log, e.closed = false ∧ e.object = obj ∧
      e.handle = makeHandle slot (generationOf e.serial) ∧ Held l.table e slot
  /-- No entry is newer than an open one and has its slot. -/
  newest : l.log.Pairwise fun newer older => older.serial < newer.serial ∧
    (older.closed = false → getSlot newer.handle ≠ getSlot older.handle)

section Slots

variable {slot generation : Nat}

@[simp] theorem getSlot_makeHandle (hs : slot < maxCount) (hg : generation < 2 ^ 15) :
    getSlot (makeHandle slot generation) = slot := by
  have hlt := makeHandle_lt hs hg
  exact ((selects_iff hs hg).mpr (Nat.mod_eq_of_lt (by omega))).1

@[simp] theorem getGeneration_makeHandle (hs : slot < maxCount) (hg : generation < 2 ^ 15) :
    getGeneration (makeHandle slot generation) = generation := by
  have hlt := makeHandle_lt hs hg
  exact ((selects_iff hs hg).mpr (Nat.mod_eq_of_lt (by omega))).2

theorem isValid_iff {table : HandleTable α} {handle : Nat} :
    table.isValid handle = true ↔ getSlot handle < maxCount ∧
      (∃ obj, table.objects (getSlot handle) = some obj) ∧
      table.generations (getSlot handle) = getGeneration handle := by
  simp [isValid, Option.isSome_iff_exists, and_assoc]

end Slots

variable {l : Ledger α} {obj : α} {handle : Nat}

theorem consistent_new : Consistent (⟨new, []⟩ : Ledger α) where
  next_eq := rfl
  free := by
    refine ⟨List.range' 0 maxCount, ?_, List.nodup_range', fun slot => ?_⟩
    · have hlinks := links_succ maxCount 0
      rwa [Nat.zero_add] at hlinks
    · simp [new, clear, List.mem_range']
  serial_lt e he := absurd he List.not_mem_nil
  handle_eq e he := absurd he List.not_mem_nil
  entry slot _ obj hobj := by simp [new, clear] at hobj
  newest := List.Pairwise.nil

theorem Consistent.nextFreeSlot_free (h : Consistent l) (hlt : l.table.nextFreeSlot < maxCount) :
    l.table.objects l.table.nextFreeSlot = none := by
  obtain ⟨path, hlinks, -, hmem⟩ := h.free
  obtain ⟨rest, rfl, -⟩ := hlinks.exists_cons (Nat.ne_of_lt hlt)
  exact ((hmem _).mp List.mem_cons_self).2

theorem Held.ne_of_free {table : HandleTable α} {e : Entry α} {slot free : Nat}
    (h : Held table e slot) (hfree : table.objects free = none) : slot ≠ free := by
  rintro rfl
  rw [h.object_eq] at hfree
  cases hfree

theorem Held.of_ne {table table' : HandleTable α} {e : Entry α} {slot other generation : Nat}
    {obj : Option α} (h : Held table e slot) (hne : slot ≠ other)
    (hobjects : table'.objects = Function.update table.objects other obj)
    (hgenerations : table'.generations = Function.update table.generations other generation) :
    Held table' e slot where
  object_eq := by rw [hobjects, update_of_ne hne, h.object_eq]
  generation_eq := by rw [hgenerations, update_of_ne hne, h.generation_eq]

/-! ## Creating -/

theorem Consistent.created (h : Consistent l) (hlt : l.table.nextFreeSlot < maxCount) (obj : α) :
    Consistent ⟨l.table.occupied obj,
      ⟨makeHandle l.table.nextFreeSlot l.table.nextGeneration, obj, l.log.length, false⟩ ::
        l.log⟩ := by
  have hfree := h.nextFreeSlot_free hlt
  have hheld : Held (l.table.occupied obj)
      ⟨makeHandle l.table.nextFreeSlot l.table.nextGeneration, obj, l.log.length, false⟩
      l.table.nextFreeSlot := by
    refine ⟨update_self .., ?_⟩
    rw [← h.next_eq]
    exact update_self ..
  refine ⟨?_, ?_, ?_, ?_, ?_, ?_⟩
  · exact (congrArg succGeneration h.next_eq).trans (generationOf_succ _).symm
  · obtain ⟨path, hlinks, hnodup, hmem⟩ := h.free
    obtain ⟨rest, rfl, hrest⟩ := hlinks.exists_cons (Nat.ne_of_lt hlt)
    obtain ⟨hnot, hnodup'⟩ := List.nodup_cons.mp hnodup
    refine ⟨rest, hrest.update hnot, hnodup', fun slot => ?_⟩
    simp only [occupied]
    by_cases hslot : slot = l.table.nextFreeSlot
    · rw [hslot, update_self]
      simp [hnot]
    · rw [update_of_ne hslot, ← hmem, List.mem_cons]
      simp [hslot]
  · intro e he
    rcases List.mem_cons.mp he with rfl | he
    · simp
    · have hlog := h.serial_lt e he
      simp only [List.length_cons]
      omega
  · intro e he
    rcases List.mem_cons.mp he with rfl | he
    · exact ⟨_, hlt, by rw [h.next_eq], fun _ => hheld⟩
    · obtain ⟨slot, hslot, heq, hopen⟩ := h.handle_eq e he
      refine ⟨slot, hslot, heq, fun hclosed => ?_⟩
      exact (hopen hclosed).of_ne ((hopen hclosed).ne_of_free hfree) rfl rfl
  · intro slot hslot obj' hobj
    by_cases heq : slot = l.table.nextFreeSlot
    · subst heq
      have hobj' : (l.table.occupied obj).objects l.table.nextFreeSlot = some obj :=
        update_self ..
      rw [hobj'] at hobj
      obtain rfl := Option.some.inj hobj
      exact ⟨_, List.mem_cons_self, rfl, rfl, by rw [h.next_eq], hheld⟩
    · have hold : l.table.objects slot = some obj' := by
        rw [← hobj]
        exact (update_of_ne heq ..).symm
      obtain ⟨e, he, hclosed, hobject, hhandle, hheld'⟩ := h.entry slot hslot obj' hold
      exact ⟨e, List.mem_cons_of_mem _ he, hclosed, hobject, hhandle, hheld'.of_ne heq rfl rfl⟩
  · refine List.pairwise_cons.mpr ⟨fun e he => ⟨h.serial_lt e he, fun hclosed => ?_⟩, h.newest⟩
    obtain ⟨slot, hslot, heq, hopen⟩ := h.handle_eq e he
    have hne := (hopen hclosed).ne_of_free hfree
    rw [heq, h.next_eq, getSlot_makeHandle hlt (generationOf_bounds _).2,
      getSlot_makeHandle hslot (generationOf_bounds _).2]
    exact Ne.symm hne

/-! ## Closing -/

theorem Entry.closeBy_of_ne {e : Entry α} (h : e.handle ≠ handle % 2 ^ 31) :
    e.closeBy handle = e := if_neg h

@[simp] theorem Entry.closeBy_handle (handle : Nat) (e : Entry α) :
    (e.closeBy handle).handle = e.handle := by
  unfold closeBy
  split <;> rfl

@[simp] theorem Entry.closeBy_serial (handle : Nat) (e : Entry α) :
    (e.closeBy handle).serial = e.serial := by
  unfold closeBy
  split <;> rfl

theorem Entry.open_closeBy {e : Entry α} (h : (e.closeBy handle).closed = false) :
    e.handle ≠ handle % 2 ^ 31 ∧ e.closed = false := by
  unfold closeBy at h
  split at h
  · cases h
  · exact ⟨‹_›, h⟩

theorem Consistent.closed (h : Consistent l) (hvalid : l.table.isValid handle = true) :
    Consistent ⟨l.table.emptied (getSlot handle), l.log.map (Entry.closeBy handle)⟩ := by
  obtain ⟨hslot, ⟨obj, hobj⟩, hgeneration⟩ := isValid_iff.mp hvalid
  -- a held entry is closed exactly when it holds the slot that is emptied
  have hcloses : ∀ e slot, slot < maxCount → e.handle = makeHandle slot (generationOf e.serial) →
      Held l.table e slot → (e.handle = handle % 2 ^ 31 ↔ slot = getSlot handle) := by
    intro e slot hlt heq hheld
    rw [heq, eq_comm, ← selects_iff hlt (generationOf_bounds _).2]
    constructor
    · exact fun hsel => hsel.1.symm
    · rintro rfl
      exact ⟨rfl, hgeneration.symm.trans hheld.generation_eq⟩
  refine ⟨?_, ?_, ?_, ?_, ?_, ?_⟩
  · rw [List.length_map]
    exact h.next_eq
  · obtain ⟨path, hlinks, hnodup, hmem⟩ := h.free
    have hnot : getSlot handle ∉ path := by
      rw [hmem, hobj]
      simp
    refine ⟨getSlot handle :: path, ⟨rfl, ?_⟩, List.nodup_cons.mpr ⟨hnot, hnodup⟩, fun slot => ?_⟩
    · simp only [emptied, update_self]
      exact hlinks.update hnot
    · simp only [emptied, List.mem_cons]
      by_cases heq : slot = getSlot handle
      · simp [heq, hslot]
      · rw [update_of_ne heq, ← hmem]
        simp [heq]
  · intro e' he'
    obtain ⟨e, he, rfl⟩ := List.mem_map.mp he'
    rw [List.length_map, Entry.closeBy_serial]
    exact h.serial_lt e he
  · intro e' he'
    obtain ⟨e, he, rfl⟩ := List.mem_map.mp he'
    obtain ⟨slot, hlt, heq, hheld⟩ := h.handle_eq e he
    refine ⟨slot, hlt, by rw [Entry.closeBy_handle, Entry.closeBy_serial, heq], fun hopen => ?_⟩
    obtain ⟨hne, hclosed⟩ := Entry.open_closeBy hopen
    rw [Entry.closeBy_of_ne hne]
    have hother := fun hcon => hne ((hcloses e slot hlt heq (hheld hclosed)).mpr hcon)
    exact (hheld hclosed).of_ne hother rfl rfl
  · intro slot hlt obj' hobj'
    have hne : slot ≠ getSlot handle := by
      rintro rfl
      simp [emptied] at hobj'
    have hold : l.table.objects slot = some obj' := by
      rw [← hobj']
      exact (update_of_ne hne ..).symm
    obtain ⟨e, he, hclosed, hobject, hhandle, hheld⟩ := h.entry slot hlt obj' hold
    have hkeep := Entry.closeBy_of_ne fun hcon => hne ((hcloses e slot hlt hhandle hheld).mp hcon)
    exact ⟨e, List.mem_map.mpr ⟨e, he, hkeep⟩, hclosed, hobject, hhandle, hheld.of_ne hne rfl rfl⟩
  · rw [List.pairwise_map]
    refine h.newest.imp fun {newer older} hpair => ?_
    simp only [Entry.closeBy_serial, Entry.closeBy_handle]
    exact ⟨hpair.1, fun hopen => hpair.2 (Entry.open_closeBy hopen).2⟩

theorem Consistent.cleared (h : Consistent l) :
    Consistent ⟨l.table.clear, l.log.map fun e => { e with closed := true }⟩ where
  next_eq := by
    rw [List.length_map]
    exact h.next_eq
  free := (consistent_new (α := α)).free
  serial_lt e' he' := by
    obtain ⟨e, he, rfl⟩ := List.mem_map.mp he'
    rw [List.length_map]
    exact h.serial_lt e he
  handle_eq e' he' := by
    obtain ⟨e, he, rfl⟩ := List.mem_map.mp he'
    obtain ⟨slot, hslot, heq, -⟩ := h.handle_eq e he
    exact ⟨slot, hslot, heq, fun hopen => Bool.noConfusion hopen⟩
  entry slot _ obj hobj := by simp [clear] at hobj
  newest := by
    rw [List.pairwise_map]
    exact h.newest.imp fun hpair => ⟨hpair.1, fun hopen => Bool.noConfusion hopen⟩

/-! ## All calls -/

theorem Consistent.record_create (h : Consistent l) (obj : α) :
    Consistent (l.record obj (create obj l.table)) := by
  by_cases hlt : l.table.nextFreeSlot < maxCount
  · rw [create_of_lt hlt]
    exact h.created hlt obj
  · rw [create_of_le (by omega)]
    exact h

theorem Consistent.apply (h : Consistent l) (c : Call α) : Consistent (l.apply c) := by
  cases c with
  | create obj => exact h.record_create obj
  | duplicate current handle =>
      cases hobj : l.table.getGeneric current handle with
      | none =>
          simp only [Ledger.apply, hobj]
          exact h
      | some object =>
          have hdup : duplicate current handle l.table = create object l.table := by
            unfold duplicate
            change (match l.table.getGeneric current handle with
              | some object => create object
              | none => Exec.throw .invalidHandle) l.table = _
            rw [hobj]
          simp only [Ledger.apply, hobj, hdup]
          exact h.record_create object
  | close handle =>
      cases hvalid : l.table.isValid handle with
      | true =>
          simp only [Ledger.apply, close_of_valid hvalid]
          exact h.closed hvalid
      | false =>
          simp only [Ledger.apply, close_of_invalid hvalid]
          exact h
  | clear => exact h.cleared

theorem consistent_run (calls : List (Call α)) : Consistent (Ledger.run calls) := by
  have hfold : ∀ (calls : List (Call α)) (l : Ledger α), Consistent l →
      Consistent (calls.foldl Ledger.apply l) := by
    intro calls
    induction calls with
    | nil => exact fun l h => h
    | cons c rest ih => exact fun l h => ih _ (h.apply c)
  exact hfold calls _ consistent_new

/-- The open entries are what a table knows: a value is valid exactly when it is the handle of
an open entry, up to the topmost bit. -/
theorem Consistent.lookup_iff (h : Consistent l) :
    (l.table.isValid handle = true ∧ l.table.objects (getSlot handle) = some obj) ↔
      ∃ e ∈ l.log, e.closed = false ∧ e.handle = handle % 2 ^ 31 ∧ e.object = obj := by
  constructor
  · rintro ⟨hvalid, hobj⟩
    obtain ⟨hslot, -, hgeneration⟩ := isValid_iff.mp hvalid
    obtain ⟨e, he, hclosed, hobject, hhandle, hheld⟩ := h.entry _ hslot obj hobj
    refine ⟨e, he, hclosed, ?_, hobject⟩
    rw [hhandle, eq_comm, ← selects_iff hslot (generationOf_bounds _).2]
    exact ⟨rfl, hgeneration.symm.trans hheld.generation_eq⟩
  · rintro ⟨e, he, hclosed, hhandle, rfl⟩
    obtain ⟨slot, hslot, heq, hopen⟩ := h.handle_eq e he
    have hheld := hopen hclosed
    obtain ⟨rfl, hgeneration⟩ := (selects_iff hslot (generationOf_bounds _).2).mpr
      (hhandle.symm.trans heq)
    refine ⟨isValid_iff.mpr ⟨hslot, ⟨_, hheld.object_eq⟩, ?_⟩, hheld.object_eq⟩
    rw [hheld.generation_eq, hgeneration]

theorem Consistent.handle_lt (h : Consistent l) {e : Entry α} (he : e ∈ l.log) :
    e.handle < 2 ^ 27 := by
  obtain ⟨slot, hslot, heq, -⟩ := h.handle_eq e he
  rw [heq]
  exact makeHandle_lt hslot (generationOf_bounds _).2

/-- Two open entries never have one handle. -/
theorem Consistent.open_distinct (h : Consistent l) :
    l.log.Pairwise fun e e' => e.closed = false → e'.closed = false → e.handle ≠ e'.handle :=
  h.newest.imp fun hpair _ hopen heq => hpair.2 hopen (congrArg getSlot heq)

theorem Consistent.newer (h : Consistent l) {e e' : Entry α} (he : e ∈ l.log) (he' : e' ∈ l.log)
    (hne : e ≠ e') :
    e.serial ≠ e'.serial ∧
      (e'.serial < e.serial → e'.closed = false → getSlot e.handle ≠ getSlot e'.handle) := by
  let R : Entry α → Entry α → Prop := fun a b => a.serial ≠ b.serial ∧
    (b.serial < a.serial → b.closed = false → getSlot a.handle ≠ getSlot b.handle) ∧
    (a.serial < b.serial → a.closed = false → getSlot b.handle ≠ getSlot a.handle)
  have hsymm : Std.Symm R := ⟨fun a b hab => ⟨hab.1.symm, hab.2.2, hab.2.1⟩⟩
  have hpairs : l.log.Pairwise R := by
    refine h.newest.imp fun {newer older} hpair => ⟨by omega, fun _ => hpair.2, fun hlt => ?_⟩
    omega
  have hboth := hpairs.forall he he' hne
  exact ⟨hboth.1, hboth.2.1⟩

/-! ## Lookups are exact up to the topmost bit -/

/-- A handle of an object in a new table. -/
def exampleCalls : List (Call Nat) := [.create 7]

/-- After every run: the free slots are one list that ends at `maxCount`, `Create` fails exactly
when there is none, the open handles are distinct, and a closed handle is rejected until 32767
more handles were created. -/
theorem run_freeList (calls : List (Call α)) :
    (∃ path, Links (Ledger.run calls).table.generations maxCount
        (Ledger.run calls).table.nextFreeSlot path ∧ path.Nodup ∧
        ∀ slot, slot ∈ path ↔ slot < maxCount ∧ (Ledger.run calls).table.objects slot = none) ∧
      (∀ obj, (create obj (Ledger.run calls).table).code?.isSome ↔
        ∀ slot < maxCount, ((Ledger.run calls).table.objects slot).isSome) ∧
      ((Ledger.run calls).log.Pairwise fun e e' =>
        e.closed = false → e'.closed = false → e.handle ≠ e'.handle) ∧
      ∀ e ∈ (Ledger.run calls).log, e.closed = true →
        (Ledger.run calls).log.length - (e.serial + 1) < 32767 →
        (Ledger.run calls).table.isValid e.handle = false := by
  have hc := consistent_run calls
  generalize Ledger.run calls = l at hc ⊢
  refine ⟨hc.free, fun obj => ?_, hc.open_distinct, fun e he hclosed hfew => ?_⟩
  · obtain ⟨path, hlinks, -, hmem⟩ := hc.free
    by_cases hlt : l.table.nextFreeSlot < maxCount
    · rw [create_of_lt hlt]
      refine iff_of_false (by simp [Outcome.code?]) fun hall => ?_
      have hfree := hall _ hlt
      rw [hc.nextFreeSlot_free hlt] at hfree
      cases hfree
    · rw [create_of_le (by omega)]
      refine iff_of_true rfl fun slot hslot => ?_
      cases path with
      | nil =>
          by_contra hnone
          have hcon := (hmem slot).mpr ⟨hslot, Option.not_isSome_iff_eq_none.mp hnone⟩
          exact List.not_mem_nil hcon
      | cons place rest =>
          have hplace := ((hmem place).mp List.mem_cons_self).1
          rw [hlinks.1] at hlt
          exact (hlt hplace).elim
  · by_contra hvalid
    rw [Bool.not_eq_false] at hvalid
    obtain ⟨-, ⟨obj, hobj⟩, -⟩ := isValid_iff.mp hvalid
    obtain ⟨e', he', hopen, hhandle, -⟩ := hc.lookup_iff.mp ⟨hvalid, hobj⟩
    have hlt := hc.handle_lt he
    rw [Nat.mod_eq_of_lt (by omega)] at hhandle
    -- the open entry is neither older than the closed one nor newer
    have hserial : generationOf e'.serial = generationOf e.serial := by
      obtain ⟨slot, hslot, heq, -⟩ := hc.handle_eq e he
      obtain ⟨slot', hslot', heq', -⟩ := hc.handle_eq e' he'
      rw [← getGeneration_makeHandle hslot (generationOf_bounds e.serial).2, ← heq, ← hhandle, heq',
        getGeneration_makeHandle hslot' (generationOf_bounds e'.serial).2]
    have hne : e ≠ e' := by
      rintro rfl
      rw [hclosed] at hopen
      cases hopen
    obtain ⟨hserials, hslots⟩ := hc.newer he he' hne
    have hnewer : ¬ e'.serial < e.serial :=
      fun hlt => hslots hlt hopen (congrArg getSlot hhandle.symm)
    have hlast := hc.serial_lt e' he'
    unfold generationOf at hserial
    omega

end Cytrus.Kernel.HandleTable
