import Mathlib.Tactic

/-!
# A cache that evicts the least recently used element

`StaticLRUCache` finds the elements of an array by their keys. A request for a
key that is not there takes an element over, whatever that holds.

## Main results

* `WellFormed.request`: different keys have different elements
* `Holds.hit`, `Holds.miss`: what a request leaves of the elements
* `holds_recent`: the keys of a run are those that were requested last
-/

namespace Cytrus.Common

/-- `StaticLRUCache`: the keys with the indices of their elements, the last used one first. -/
structure StaticLRUCache (κ α : Type*) where
  list : List (κ × Nat) := []
  array : Nat → α

namespace StaticLRUCache

variable {κ α : Type*} [DecidableEq κ]

/-- What `request` returns: whether the key was there, and a reference to its element. -/
structure Requested (κ α : Type*) where
  present : Bool
  index : Nat
  cache : StaticLRUCache κ α

def find (c : StaticLRUCache κ α) (key : κ) : Option (κ × Nat) := c.list.find? fun e => e.1 = key

/-- `evict`, of a cache that is full. -/
def evict (c : StaticLRUCache κ α) : Nat × StaticLRUCache κ α :=
  ((c.list.getLast?.map Prod.snd).getD 0, { c with list := c.list.dropLast })

/-- `request`, of a cache with room for `capacity` elements. -/
def request (capacity : Nat) (c : StaticLRUCache κ α) (key : κ) : Requested κ α :=
  match c.find key with
  | none =>
      let next := if capacity ≤ c.list.length then c.evict else (c.list.length, c)
      ⟨false, next.1, { next.2 with list := (key, next.1) :: next.2.list }⟩
  | some e => ⟨true, e.2, { c with list := e :: c.list.eraseP fun x => x.1 = key }⟩

def clear (c : StaticLRUCache κ α) : StaticLRUCache κ α := { c with list := [] }

/-- Write through the reference that `request` returns. -/
def write (c : StaticLRUCache κ α) (index : Nat) (v : α) : StaticLRUCache κ α :=
  { c with array := Function.update c.array index v }

/-- The indices in use are the first ones, each once. -/
structure WellFormed (capacity : Nat) (c : StaticLRUCache κ α) : Prop where
  indices : (c.list.map Prod.snd).Perm (List.range c.list.length)
  size : c.list.length ≤ capacity

/-- Every element in use has the property that goes with its key. -/
def Holds (P : κ → α → Prop) (c : StaticLRUCache κ α) : Prop := ∀ e ∈ c.list, P e.1 (c.array e.2)

variable {capacity index : Nat} {c : StaticLRUCache κ α} {key : κ} {v : α} {P Q : κ → α → Prop}

omit [DecidableEq κ] in
theorem holds_clear : c.clear.Holds P := fun _ he => nomatch he

omit [DecidableEq κ] in
theorem wellFormed_clear : c.clear.WellFormed capacity := ⟨List.Perm.refl _, Nat.zero_le _⟩

omit [DecidableEq κ] in
theorem WellFormed.write (h : c.WellFormed capacity) : (c.write index v).WellFormed capacity :=
  ⟨h.indices, h.size⟩

omit [DecidableEq κ] in
theorem WellFormed.nodup (h : c.WellFormed capacity) : (c.list.map Prod.snd).Nodup :=
  h.indices.nodup_iff.mpr List.nodup_range

theorem request_array : (c.request capacity key).cache.array = c.array := by
  unfold request
  split
  · simp only
    split <;> rfl
  · rfl

theorem request_of_mem {e : κ × Nat} (h : c.find key = some e) :
    c.request capacity key =
      ⟨true, e.2, { c with list := e :: c.list.eraseP fun x => x.1 = key }⟩ := by
  simp only [request, h]

theorem find_eq_some {e : κ × Nat} (h : c.find key = some e) : e ∈ c.list ∧ e.1 = key :=
  ⟨List.mem_of_find?_eq_some h, by simpa using List.find?_some h⟩

theorem find_eq_none (h : c.find key = none) : ∀ e ∈ c.list, e.1 ≠ key := by
  simpa [find] using h

theorem request_present : (c.request capacity key).present = (c.find key).isSome := by
  unfold request
  split <;> simp_all

variable (capacity) in
theorem request_congr {c' : StaticLRUCache κ α} (h : c'.list = c.list) (key : κ) :
    (c'.request capacity key).present = (c.request capacity key).present ∧
      (c'.request capacity key).cache.list = (c.request capacity key).cache.list := by
  have hfind : c'.find key = c.find key := by rw [find, find, h]
  refine ⟨by rw [request_present, request_present, hfind], ?_⟩
  simp only [request, hfind, evict, h]
  split
  · split
    · rfl
    · simp only [h]
  · rfl

theorem perm_front {e : κ × Nat} (h : c.find key = some e) :
    (e :: c.list.eraseP fun x => x.1 = key).Perm c.list := by
  obtain ⟨-, before, behind, hlist, hbefore⟩ := List.find?_eq_some_iff_append.mp h
  have hkey : e.1 = key := (find_eq_some h).2
  have herase : c.list.eraseP (fun x => decide (x.1 = key)) = before ++ behind := by
    rw [hlist, List.eraseP_append_right _ fun x hx => by simpa using hbefore x hx]
    simp [hkey]
  rw [herase, hlist]
  exact List.perm_middle.symm

theorem request_of_not_mem (h : c.find key = none) :
    ∃ rest, (c.request capacity key).cache.list = (key, (c.request capacity key).index) :: rest ∧
      rest.Sublist c.list := by
  simp only [request, h]
  split
  · exact ⟨c.list.dropLast, rfl, List.dropLast_sublist _⟩
  · exact ⟨c.list, rfl, List.Sublist.refl _⟩

theorem WellFormed.request (h : c.WellFormed capacity) (hcapacity : 0 < capacity) (key : κ) :
    (c.request capacity key).cache.WellFormed capacity := by
  cases hfind : c.find key with
  | some e =>
      have hperm := perm_front hfind
      rw [request_of_mem hfind]
      constructor
      · simp only
        rw [hperm.length_eq]
        exact (hperm.map Prod.snd).trans h.indices
      · exact hperm.length_eq.trans_le h.size
  | none =>
      simp only [StaticLRUCache.request, hfind]
      by_cases hfull : capacity ≤ c.list.length
      · -- the last entry gives its index to the new one
        have hne : c.list ≠ [] := by
          rintro hnil
          rw [hnil, List.length_nil] at hfull
          omega
        have hlast : c.list = c.list.dropLast ++ [c.list.getLast hne] :=
          (List.dropLast_append_getLast hne).symm
        have hindex : (c.list.getLast?.map Prod.snd).getD 0 = (c.list.getLast hne).2 := by
          rw [List.getLast?_eq_some_getLast hne]
          rfl
        have hlength : c.list.dropLast.length + 1 = c.list.length := by
          have hpos := List.length_pos_iff.mpr hne
          rw [List.length_dropLast]
          omega
        simp only [if_pos hfull, evict, hindex]
        constructor
        · simp only [List.map_cons, List.length_cons, hlength]
          refine List.Perm.trans ?_ h.indices
          conv_rhs => rw [hlast, List.map_append, List.map_singleton]
          exact (List.perm_append_singleton _ _).symm
        · simp only [List.length_cons, hlength]
          exact h.size
      · simp only [if_neg hfull]
        constructor
        · simp only [List.map_cons, List.length_cons, List.range_succ]
          exact (h.indices.cons _).trans (List.perm_append_singleton _ _).symm
        · simp only [List.length_cons]
          omega

/-- A hit finds what its key promises, and keeps the elements. -/
theorem Holds.hit (h : c.Holds P) (hpresent : (c.request capacity key).present = true) :
    P key (c.array (c.request capacity key).index) ∧ (c.request capacity key).cache.Holds P := by
  rw [request_present, Option.isSome_iff_exists] at hpresent
  obtain ⟨e, hfind⟩ := hpresent
  obtain ⟨hmem, hkey⟩ := find_eq_some hfind
  rw [request_of_mem hfind]
  refine ⟨hkey ▸ h e hmem, ?_⟩
  intro x hx
  exact h x ((perm_front hfind).mem_iff.mp hx)

theorem Holds.miss (hwf : c.WellFormed capacity) (hcapacity : 0 < capacity) (h : c.Holds P)
    (hmissing : (c.request capacity key).present = false)
    (hothers : ∀ k, k ≠ key → ∀ x, P k x → Q k x) (hv : Q key v) :
    ((c.request capacity key).cache.write (c.request capacity key).index v).Holds Q := by
  have hfind : c.find key = none := by
    rw [request_present] at hmissing
    simpa using hmissing
  obtain ⟨rest, hlist, hrest⟩ := @request_of_not_mem _ _ _ capacity c key hfind
  have hnodup := (hwf.request hcapacity key).nodup
  rw [hlist, List.map_cons, List.nodup_cons] at hnodup
  intro e he
  simp only [StaticLRUCache.write, hlist, request_array] at he ⊢
  rcases List.mem_cons.mp he with rfl | he
  · rw [Function.update_self]
    exact hv
  · have hindex : e.2 ≠ (c.request capacity key).index := fun heq =>
      hnodup.1 (List.mem_map.mpr ⟨e, he, heq⟩)
    rw [Function.update_of_ne hindex]
    have hold := hrest.subset he
    exact hothers e.1 (find_eq_none hfind e hold) _ (h e hold)

/-! ## Runs -/

/-- The keys of requests, of which the last one comes first, without those that are requested
again later. -/
def recent : List κ → List κ
  | [] => []
  | key :: before => key :: (recent before).erase key

/-- A cache after requests, of which the last one comes first. -/
def requestAll (capacity : Nat) (c : StaticLRUCache κ α) : List κ → StaticLRUCache κ α
  | [] => c
  | key :: before => ((requestAll capacity c before).request capacity key).cache

theorem map_eraseP (l : List (κ × Nat)) :
    (l.eraseP fun x => x.1 = key).map Prod.fst = (l.map Prod.fst).erase key := by
  induction l with
  | nil => rfl
  | cons e rest ih => by_cases h : e.1 = key <;> simp [h, ih]

theorem take_erase_take (l : List κ) (n : Nat) :
    ((l.take (n + 1)).erase key).take n = (l.erase key).take n := by
  induction l generalizing n with
  | nil => rfl
  | cons k rest ih =>
      by_cases h : k = key
      · simp [h]
      · cases n with
        | zero => rfl
        | succ n => simp [h, ih]

theorem keys_request (hcapacity : 0 < capacity) (hsize : c.list.length ≤ capacity) :
    (c.request capacity key).cache.list.map Prod.fst =
      (key :: (c.list.map Prod.fst).erase key).take capacity := by
  cases hfind : c.find key with
  | some e =>
      have hlength : (key :: (c.list.map Prod.fst).erase key).length ≤ capacity := by
        rw [← map_eraseP, List.length_cons, List.length_map]
        exact (perm_front hfind).length_eq.trans_le hsize
      rw [request_of_mem hfind, List.take_of_length_le hlength, ← map_eraseP, ← (find_eq_some hfind).2]
      rfl
  | none =>
      have hnew : key ∉ c.list.map Prod.fst := fun hmem => by
        obtain ⟨e, he, heq⟩ := List.mem_map.mp hmem
        exact find_eq_none hfind e he heq
      rw [List.erase_of_not_mem hnew]
      obtain ⟨n, rfl⟩ := Nat.exists_eq_add_of_lt hcapacity
      rw [Nat.zero_add] at *
      simp only [request, hfind, List.take_succ_cons]
      split_ifs with hfull
      · rw [List.map_cons, evict, List.dropLast_eq_take, List.map_take, hsize.antisymm hfull]
        rfl
      · rw [List.map_cons, List.take_of_length_le (by rw [List.length_map]; omega)]

/-- The cache holds the keys that were requested last, and a request finds its key if it is one of
them. -/
theorem holds_recent (hcapacity : 0 < capacity) (array : Nat → α) (keys : List κ) :
    ((requestAll capacity { array := array } keys).list.map Prod.fst =
        (recent keys).take capacity) ∧
      ∀ key, ((requestAll capacity { array := array } keys).request capacity key).present = true ↔
        key ∈ (recent keys).take capacity := by
  have hkeys : (requestAll capacity { array := array } keys).list.map Prod.fst =
      (recent keys).take capacity := by
    induction keys with
    | nil => simp [requestAll, recent]
    | cons key before ih =>
        have hsize : (requestAll capacity { array := array } before).list.length ≤ capacity := by
          rw [← List.length_map (f := Prod.fst), ih]
          exact List.length_take_le ..
        obtain ⟨n, rfl⟩ := Nat.exists_eq_add_of_lt hcapacity
        rw [requestAll, keys_request hcapacity hsize, ih, recent, Nat.zero_add, List.take_succ_cons,
          List.take_succ_cons, take_erase_take]
  refine ⟨hkeys, fun key => ?_⟩
  rw [← hkeys, request_present, find, List.find?_isSome, List.mem_map]
  simp

theorem holds_recent_two : (requestAll 2 { array := fun _ => () } [3, 1, 2, 1]).list.map Prod.fst = [3, 1] :=
  (holds_recent (by decide) _ _).1

end StaticLRUCache

end Cytrus.Common
