import Mathlib.Tactic
import Mathlib.Order.Defs.LinearOrder
import Mathlib.Data.List.Basic

/-!
# Ordered maps with key iterators

An ordered map is a list of entries in strictly increasing key order. An
iterator is the key of the entry it points to, or `none` for the past-the-end
position, so an iterator stays valid while other entries come and go.

## Implementation notes

Every operation has one lemma that computes it at a decomposition
`pre ++ (k, v) :: post` of the entries. Proofs about code that walks a map
never unfold an operation; they carry such a decomposition along.
-/

namespace Cytrus.Support.OrderedMap

variable {κ α : Type*} [LinearOrder κ]

/-- The entries of a map, smallest key first. -/
abbrev Entries (κ α : Type*) := List (κ × α)

/-- Strictly increasing keys. -/
def Sorted (m : Entries κ α) : Prop := m.Pairwise fun a b => a.1 < b.1

/-- The value an iterator points to. -/
def at? (m : Entries κ α) (k : κ) : Option α := (m.find? fun e => e.1 = k).map Prod.snd

/-- The first key at or above `k`. -/
def lowerBound (m : Entries κ α) (k : κ) : Option κ :=
  (m.find? fun e => k ≤ e.1).map Prod.fst

/-- The first key above `k`; this is also the successor of an iterator at `k`. -/
def upperBound (m : Entries κ α) (k : κ) : Option κ :=
  (m.find? fun e => k < e.1).map Prod.fst

/-- The predecessor of an iterator; stepping back from the first entry has no answer. -/
def prev (m : Entries κ α) : Option κ → Option κ
  | none => m.getLast?.map Prod.fst
  | some k => (m.filter fun e => e.1 < k).getLast?.map Prod.fst

def write (m : Entries κ α) (k : κ) (v : α) : Entries κ α :=
  m.map fun e => if e.1 = k then (k, v) else e

/-- Insert an entry unless its key is taken. -/
def emplace : Entries κ α → κ → α → Entries κ α
  | [], k, v => [(k, v)]
  | e :: rest, k, v =>
      if k < e.1 then (k, v) :: e :: rest
      else if k = e.1 then e :: rest
      else e :: emplace rest k v

def erase (m : Entries κ α) (k : κ) : Entries κ α := m.filter fun e => e.1 ≠ k

variable {pre post : Entries κ α} {k j : κ} {v w : α}

theorem sorted_iff_keys (m : Entries κ α) : Sorted m ↔ (m.map Prod.fst).Pairwise (· < ·) := by
  simp [Sorted, List.pairwise_map]

theorem Sorted.lt_of_mem_pre (h : Sorted (pre ++ (k, v) :: post)) :
    ∀ e ∈ pre, e.1 < k := by
  intro e he
  exact (List.pairwise_append.mp h).2.2 e he (k, v) (by simp)

theorem Sorted.lt_of_mem_post (h : Sorted (pre ++ (k, v) :: post)) :
    ∀ e ∈ post, k < e.1 := by
  intro e he
  exact List.rel_of_pairwise_cons (List.pairwise_append.mp h).2.1 he

omit [LinearOrder κ] in
theorem find?_append_of_none {p : κ × α → Bool} (h : ∀ e ∈ pre, p e = false) :
    (pre ++ post).find? p = post.find? p := by
  rw [List.find?_append, List.find?_eq_none.mpr (by simpa using h)]
  rfl

theorem at?_split (h : Sorted (pre ++ (k, v) :: post)) :
    at? (pre ++ (k, v) :: post) k = some v := by
  have hpre : ∀ e ∈ pre, decide (e.1 = k) = false := by
    intro e he
    simpa using (h.lt_of_mem_pre e he).ne
  unfold at?
  rw [find?_append_of_none hpre]
  simp

theorem lowerBound_append (hpre : ∀ e ∈ pre, e.1 < k) (hpost : ∀ e ∈ post.head?, k ≤ e.1) :
    lowerBound (pre ++ post) k = post.head?.map Prod.fst := by
  have hp : ∀ e ∈ pre, decide (k ≤ e.1) = false := by
    intro e he
    simpa using hpre e he
  unfold lowerBound
  rw [find?_append_of_none hp]
  cases post with
  | nil => rfl
  | cons e rest => simp [hpost e (by simp)]

theorem upperBound_append (hpre : ∀ e ∈ pre, e.1 ≤ k) (hpost : ∀ e ∈ post.head?, k < e.1) :
    upperBound (pre ++ post) k = post.head?.map Prod.fst := by
  have hp : ∀ e ∈ pre, decide (k < e.1) = false := by
    intro e he
    simpa using hpre e he
  unfold upperBound
  rw [find?_append_of_none hp]
  cases post with
  | nil => rfl
  | cons e rest => simp [hpost e (by simp)]

theorem filter_lt_append (hpre : ∀ e ∈ pre, e.1 < k) (hpost : ∀ e ∈ post, k ≤ e.1) :
    (pre ++ post).filter (fun e => decide (e.1 < k)) = pre := by
  rw [List.filter_append, List.filter_eq_self.mpr (by simpa using hpre),
    List.filter_eq_nil_iff.mpr (by simpa using hpost), List.append_nil]

theorem prev_split (h : Sorted (pre ++ (k, v) :: post)) :
    prev (pre ++ (k, v) :: post) (some k) = pre.getLast?.map Prod.fst := by
  simp only [prev]
  rw [filter_lt_append h.lt_of_mem_pre]
  intro e he
  rcases List.mem_cons.mp he with he | he
  · rw [he]
  · exact (h.lt_of_mem_post e he).le

/-- The predecessor of the position after a prefix is the last entry of the prefix. -/
theorem prev_append (h : Sorted (pre ++ post)) :
    prev (pre ++ post) (post.head?.map Prod.fst) = pre.getLast?.map Prod.fst := by
  cases post with
  | nil => simp [prev]
  | cons e rest => exact prev_split (k := e.1) (v := e.2) h

theorem map_write_of_ne (h : ∀ e ∈ pre, e.1 ≠ k) :
    pre.map (fun e => if e.1 = k then (k, w) else e) = pre := by
  refine (List.map_congr_left ?_).trans (List.map_id pre)
  intro e he
  simp [h e he]

theorem write_split (h : Sorted (pre ++ (k, v) :: post)) :
    write (pre ++ (k, v) :: post) k w = pre ++ (k, w) :: post := by
  unfold write
  rw [List.map_append, List.map_cons, map_write_of_ne fun e he => (h.lt_of_mem_pre e he).ne,
    map_write_of_ne fun e he => (h.lt_of_mem_post e he).ne']
  simp

theorem erase_split (h : Sorted (pre ++ (k, v) :: post)) :
    erase (pre ++ (k, v) :: post) k = pre ++ post := by
  unfold erase
  rw [List.filter_append, List.filter_cons]
  rw [List.filter_eq_self.mpr, List.filter_eq_self.mpr]
  · simp
  · intro e he
    simpa using (h.lt_of_mem_post e he).ne'
  · intro e he
    simpa using (h.lt_of_mem_pre e he).ne

theorem emplace_append (hpre : ∀ e ∈ pre, e.1 < k) (hpost : ∀ e ∈ post.head?, k < e.1) :
    emplace (pre ++ post) k v = pre ++ (k, v) :: post := by
  induction pre with
  | nil =>
      cases post with
      | nil => rfl
      | cons e rest => simp [emplace, hpost e (by simp)]
  | cons e rest ih =>
      have he : e.1 < k := hpre e (by simp)
      simp [emplace, he.not_gt, he.ne', ih fun x hx => hpre x (by simp [hx])]

theorem Sorted.replace (h : Sorted (pre ++ (k, v) :: post)) (w : α) :
    Sorted (pre ++ (k, w) :: post) := by
  have hkeys : (pre ++ (k, w) :: post).map Prod.fst = (pre ++ (k, v) :: post).map Prod.fst := by
    simp
  rwa [sorted_iff_keys, hkeys, ← sorted_iff_keys]

/-- Insert an entry, or give the entry with the key another value. -/
def insertOrAssign (m : Entries κ α) (k : κ) (v : α) : Entries κ α :=
  if (at? m k).isSome then write m k v else emplace m k v

theorem Sorted.write {m : Entries κ α} (h : Sorted m) (k : κ) (v : α) :
    Sorted (OrderedMap.write m k v) := by
  have hkeys : (OrderedMap.write m k v).map Prod.fst = m.map Prod.fst := by
    unfold OrderedMap.write
    rw [List.map_map]
    apply List.map_congr_left
    intro e he
    by_cases hkey : e.1 = k
    · simp [hkey]
    · simp [hkey]
  rwa [sorted_iff_keys, hkeys, ← sorted_iff_keys]

theorem mem_emplace {m : Entries κ α} {e : κ × α} (h : e ∈ emplace m k v) :
    e = (k, v) ∨ e ∈ m := by
  induction m with
  | nil => exact .inl (List.mem_singleton.mp h)
  | cons first m ih =>
      unfold emplace at h
      split_ifs at h with hlt heq
      · exact List.mem_cons.mp h
      · exact .inr h
      · rcases List.mem_cons.mp h with rfl | h
        · exact .inr List.mem_cons_self
        · exact (ih h).imp_right (List.mem_cons_of_mem _)

theorem Sorted.emplace {m : Entries κ α} (h : Sorted m) (k : κ) (v : α) :
    Sorted (OrderedMap.emplace m k v) := by
  induction m with
  | nil => exact List.pairwise_singleton _ _
  | cons first m ih =>
      obtain ⟨hfirst, hm⟩ := List.pairwise_cons.mp h
      unfold OrderedMap.emplace
      split_ifs with hlt heq
      · apply List.pairwise_cons.mpr
        refine ⟨fun e he => ?_, h⟩
        rcases List.mem_cons.mp he with rfl | he
        · exact hlt
        · exact hlt.trans (hfirst e he)
      · exact h
      · apply List.pairwise_cons.mpr
        refine ⟨fun e he => ?_, ih hm⟩
        rcases mem_emplace he with rfl | he
        · exact lt_of_le_of_ne (not_lt.mp hlt) (Ne.symm heq)
        · exact hfirst e he

theorem Sorted.insertOrAssign {m : Entries κ α} (h : Sorted m) (k : κ) (v : α) :
    Sorted (OrderedMap.insertOrAssign m k v) := by
  unfold OrderedMap.insertOrAssign
  split_ifs
  · exact h.write k v
  · exact h.emplace k v

theorem insertOrAssign_last {m : Entries κ α} (h : ∀ e ∈ m, e.1 < k) (v : α) :
    insertOrAssign m k v = m ++ [(k, v)] := by
  have hnone : at? m k = none := by
    unfold at?
    rw [List.find?_eq_none.mpr fun e he => by simpa using (h e he).ne]
    rfl
  have hemplace : emplace (m ++ []) k v = m ++ [(k, v)] := emplace_append h (by simp)
  rw [List.append_nil] at hemplace
  unfold insertOrAssign
  rw [hnone]
  exact hemplace

end Cytrus.Support.OrderedMap
