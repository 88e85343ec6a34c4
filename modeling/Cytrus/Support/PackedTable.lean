import Cytrus.Support.Slices

/-!
# Tables of packed records

Numbers as bytes, records that are written one after another, and records that
are chained by buckets. Every new record is put in front of the chain of its
bucket, so a record holds what the bucket held before it.

## Main results

* `numberAt_toBytes`, `numberAt_skip`: reading the fields of a record
* `records_split`: a packed table has each record at the sum of the sizes before it
* `Linked.chain`: a bucket leads to its entries, the last one first
-/

namespace Cytrus.Support

/-! ## Numbers as bytes -/

/-- The low `width` bytes of a number, the least significant one first. -/
def toBytes : Nat → Nat → List UInt8
  | 0, _ => []
  | width + 1, n => UInt8.ofNat n :: toBytes width (n / 256)

/-- The number that bytes stand for, the least significant one first. -/
def ofBytes (bytes : List UInt8) : Nat := bytes.foldr (fun x n => x.toNat + 256 * n) 0

/-- The number of `width` bytes at `i`. -/
def numberAt (width : Nat) (l : List UInt8) (i : Nat) : Option Nat := (slice l i width).map ofBytes

/-- The number in the `width` bytes at `i`, as far as they are there. -/
def fieldAt (l : List UInt8) (i width : Nat) : Nat := ofBytes ((l.drop i).take width)

@[simp] theorem length_toBytes (width n : Nat) : (toBytes width n).length = width := by
  induction width generalizing n with
  | zero => rfl
  | succ width ih => rw [toBytes, List.length_cons, ih]

theorem ofBytes_toBytes (width n : Nat) : ofBytes (toBytes width n) = n % 256 ^ width := by
  induction width generalizing n with
  | zero => simp [toBytes, ofBytes, Nat.mod_one]
  | succ width ih =>
      calc
        ofBytes (toBytes (width + 1) n)
          = n % 256 + 256 * (n / 256 % 256 ^ width) := by
            rw [← ih, toBytes, ofBytes, List.foldr_cons, UInt8.toNat_ofNat']
            rfl
        _ = n % 256 ^ (width + 1) := by rw [pow_succ', Nat.mod_mul]

theorem ofBytes_lt (bytes : List UInt8) : ofBytes bytes < 256 ^ bytes.length := by
  induction bytes with
  | nil => exact Nat.one_pos
  | cons b rest ih =>
      have hb : b.toNat < 256 := b.toNat_lt
      rw [ofBytes] at *
      rw [List.foldr_cons, List.length_cons, pow_succ]
      omega

theorem toBytes_ofBytes (bytes : List UInt8) : toBytes bytes.length (ofBytes bytes) = bytes := by
  induction bytes with
  | nil => rfl
  | cons b rest ih =>
      have hb : b.toNat < 256 := b.toNat_lt
      have hcons : ofBytes (b :: rest) = b.toNat + 256 * ofBytes rest := rfl
      rw [List.length_cons, toBytes, hcons, Nat.add_mul_div_left _ _ (by decide), Nat.div_eq_of_lt hb, zero_add,
        ih, UInt8.ofNat_add, UInt8.ofNat_mul, UInt8.ofNat_toNat]
      simp

section Fields

variable {l front rest : List UInt8} {width i n : Nat}

theorem fieldAt_toBytes (h : (l.drop i).take width = toBytes width n) (hn : n < 256 ^ width) :
    fieldAt l i width = n := by
  rw [fieldAt, h, ofBytes_toBytes, Nat.mod_eq_of_lt hn]

theorem numberAt_toBytes (h : n < 256 ^ width) :
    numberAt width (toBytes width n ++ rest) 0 = some n := by
  have hslice : slice (toBytes width n ++ rest) 0 width = some (toBytes width n) := by
    simp [slice_eq_some, List.take_left' (length_toBytes width n)]
  rw [numberAt, hslice, Option.map_some, ofBytes_toBytes, Nat.mod_eq_of_lt h]

theorem numberAt_append (front rest : List UInt8) (width i : Nat) :
    numberAt width (front ++ rest) (front.length + i) = numberAt width rest i := by
  rw [numberAt, ← slice_drop (by simp), List.drop_left, numberAt]

theorem numberAt_append_start (front rest : List UInt8) (width : Nat) :
    numberAt width (front ++ rest) front.length = numberAt width rest 0 :=
  numberAt_append front rest width 0

theorem numberAt_skip {w : Nat} (h : w ≤ i) :
    numberAt width (toBytes w n ++ rest) i = numberAt width rest (i - w) := by
  have happend := numberAt_append (toBytes w n) rest width (i - w)
  rwa [length_toBytes, Nat.add_sub_cancel' h] at happend

end Fields

/-! ## Packed records -/

section Packed

variable {ε κ α : Type*} [DecidableEq κ] (size : ε → Nat) (key : ε → κ)

/-- Where the first entry with a key starts. -/
def packedStart : List ε → κ → Option Nat
  | [], _ => none
  | e :: rest, k => if key e = k then some 0 else (packedStart rest k).map (size e + ·)

/-- The records of `rest`, each of them made from the entries before it. -/
def records (record : List ε → ε → List α) : List ε → List ε → List α
  | _, [] => []
  | done, e :: rest => record done e ++ records record (done ++ [e]) rest

/-- The bytes that entries take. -/
def totalSize (l : List ε) : Nat := (l.map size).sum

variable {size key} {record : List ε → ε → List α} {l pre post done : List ε} {e : ε} {k : κ}

@[simp] theorem totalSize_nil : totalSize size ([] : List ε) = 0 := rfl

@[simp] theorem totalSize_cons : totalSize size (e :: l) = size e + totalSize size l := rfl

@[simp] theorem totalSize_append : totalSize size (pre ++ post) =
    totalSize size pre + totalSize size post := by
  simp [totalSize]

variable (size post) in
theorem packedStart_split (h : key e ∉ pre.map key) :
    packedStart size key (pre ++ e :: post) (key e) = some (totalSize size pre) := by
  induction pre with
  | nil => simp [packedStart]
  | cons x pre ih =>
      simp only [List.map_cons, List.mem_cons, not_or] at h
      simp [packedStart, Ne.symm h.1, ih h.2]

theorem packedStart_eq_none (h : k ∉ l.map key) : packedStart size key l k = none := by
  induction l with
  | nil => rfl
  | cons x l ih =>
      simp only [List.map_cons, List.mem_cons, not_or] at h
      simp [packedStart, Ne.symm h.1, ih h.2]

variable (size) in
theorem packedStart_isSome (h : k ∈ l.map key) : ∃ n, packedStart size key l k = some n := by
  induction l with
  | nil => simp at h
  | cons x l ih =>
      rw [packedStart]
      split_ifs with hx
      · exact ⟨0, rfl⟩
      · obtain ⟨n, hn⟩ := ih ((List.mem_cons.mp h).resolve_left (Ne.symm hx))
        exact ⟨size x + n, by rw [hn]; rfl⟩

theorem starts_sorted {start : ε → Nat} (hpos : ∀ e, 0 < size e)
    (h : ∀ pre e post, l = pre ++ e :: post → start e = totalSize size pre) :
    (l.map start).Pairwise (· < ·) := by
  induction l using List.reverseRecOn with
  | nil => exact List.Pairwise.nil
  | append_singleton l e ih =>
      have hbefore : ∀ pre x post, l = pre ++ x :: post → start x = totalSize size pre := by
        rintro pre x post rfl
        exact h pre x (post ++ [e]) (by simp)
      have hlast := h l e [] rfl
      rw [List.map_append, List.map_singleton, List.pairwise_append]
      refine ⟨ih hbefore, List.pairwise_singleton _ _, fun y hy z hz => ?_⟩
      obtain ⟨x, hx, rfl⟩ := List.mem_map.mp hy
      obtain ⟨pre, post, rfl⟩ := List.append_of_mem hx
      have hx := hbefore pre x post rfl
      have := hpos x
      rw [List.mem_singleton.mp hz, hlast, hx, totalSize_append, totalSize_cons]
      omega

theorem length_records (hsize : ∀ done e, (record done e).length = size e) :
    (records record done l).length = totalSize size l := by
  induction l generalizing done with
  | nil => rfl
  | cons e l ih => rw [records, List.length_append, hsize, ih, totalSize_cons]

theorem records_append : records record done (pre ++ post) =
    records record done pre ++ records record (done ++ pre) post := by
  induction pre generalizing done with
  | nil => simp [records]
  | cons e pre ih => simp [records, ih]

/-- A packed table has each record at the sum of the sizes before it. -/
theorem records_split : records record [] (pre ++ e :: post) =
    records record [] pre ++ (record pre e ++ records record (pre ++ [e]) post) := by
  rw [records_append, List.nil_append, records]

end Packed

/-! ## Chains -/

section Chains

variable {ε : Type*} (offset bucket : ε → Nat) (last : Nat)

/-- The head of a bucket after `done` were put in front of their chains, one after another. -/
def chainHead (done : List ε) (b : Nat) : Nat :=
  ((done.filter fun e => bucket e = b).getLast?.map offset).getD last

/-- The heads of `n` buckets. -/
def chainHeads (n : Nat) (done : List ε) : List Nat :=
  (List.range n).map (chainHead offset bucket last done)

/-- Following `next` from an offset leads through a list of offsets to the end of the chain. -/
inductive Chain (next : Nat → Option Nat) : Nat → List Nat → Prop
  | nil : Chain next last []
  | cons {o n : Nat} {rest : List Nat} (h : next o = some n) (tail : Chain next n rest) :
      Chain next o (o :: rest)

/-- Each entry is linked to what was the head of its bucket before it. -/
def Linked (next : Nat → Option Nat) (entries : List ε) : Prop :=
  ∀ pre e post, entries = pre ++ e :: post →
    next (offset e) = some (chainHead offset bucket last pre (bucket e))

variable {offset bucket last} {done post entries : List ε} {e : ε} {n b : Nat}
  {next : Nat → Option Nat}

@[simp] theorem length_chainHeads : (chainHeads offset bucket last n done).length = n := by
  simp [chainHeads]

theorem chainHeads_nil : chainHeads offset bucket last n [] = List.replicate n last := by
  refine List.ext_getElem (by simp) fun i _ _ => ?_
  simp [chainHeads, chainHead]

theorem chainHeads_getElem? (h : b < n) :
    (chainHeads offset bucket last n done)[b]? = some (chainHead offset bucket last done b) := by
  simp [chainHeads, List.getElem?_range h]

theorem chainHead_snoc : chainHead offset bucket last (done ++ [e]) b =
    if bucket e = b then offset e else chainHead offset bucket last done b := by
  unfold chainHead
  split_ifs with h <;> simp [List.filter_append, h]

variable (offset bucket last done b) in
theorem chainHead_cases : chainHead offset bucket last done b = last ∨
    ∃ e ∈ done, bucket e = b ∧ chainHead offset bucket last done b = offset e := by
  unfold chainHead
  cases hlast : (done.filter fun e => bucket e = b).getLast? with
  | none => exact .inl rfl
  | some e =>
      obtain ⟨hmem, hb⟩ := List.mem_filter.mp (List.mem_of_getLast? hlast)
      exact .inr ⟨e, hmem, by simpa using hb, rfl⟩

theorem chainHeads_snoc : chainHeads offset bucket last n (done ++ [e]) =
    (chainHeads offset bucket last n done).set (bucket e) (offset e) := by
  refine List.ext_getElem (by simp) fun i _ _ => ?_
  simp [chainHeads, chainHead_snoc, List.getElem_set]

/-- A bucket leads to its entries, the last one first. -/
theorem Linked.chain (h : Linked offset bucket last next entries) (b : Nat) :
    ∀ done post, entries = done ++ post →
      Chain last next (chainHead offset bucket last done b)
        ((done.filter fun e => bucket e = b).map offset).reverse := by
  intro done
  induction done using List.reverseRecOn with
  | nil => exact fun _ _ => Chain.nil
  | append_singleton done e ih =>
      intro post hentries
      have hsplit : entries = done ++ e :: post := by simpa using hentries
      have hchain := ih (e :: post) hsplit
      rw [chainHead_snoc]
      split_ifs with hb
      · have hnext := h done e post hsplit
        rw [hb] at hnext
        simpa [List.filter_append, hb] using Chain.cons hnext hchain
      · simpa [List.filter_append, hb] using hchain

end Chains

end Cytrus.Support
