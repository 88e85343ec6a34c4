import Mathlib
import Cytrus.FileSys.CiaContainer

/-!
# Tickets

A ticket is a signature of one of six types, a body of fixed size, and a blob of
rights to contents. Loading puts the start of the body at the next multiple of
64 bytes; serializing always adds padding, also where the signature ends at such
a multiple already.

## Main results

* `load_eq_read`: the ticket that loading leaves, beside its result
* `restores_iff`: the tickets that are loaded again as they were

## Implementation notes

The body and the blob are kept as their bytes, as loading does not look into
them.
-/

namespace Cytrus.FileSys

open Support

/-! ## Loading and serializing -/

structure Ticket where
  signatureType : Nat
  ticketSignature : List UInt8
  ticketBody : List UInt8
  contentIndex : List UInt8
  serializedSize : Nat
  deriving DecidableEq

namespace Ticket

/-- `Load`, with the ticket that it leaves if it succeeds. -/
def read (data : List UInt8) (offset : Nat) : Except ContainerFault (Option Ticket) :=
  if data.length < offset then .error .outOfBounds
  else
    let totalSize := data.length - offset
    if totalSize < 4 then .ok none
    else
      let signatureType := bigEndianAt data offset 4
      let signatureSize := getSignatureSize signatureType
      if signatureSize = 0 then .ok none
      else
        let bodyStart := alignUp (signatureSize + 4) 0x40
        let bodyEnd := bodyStart + ticketBodySize
        if totalSize < bodyEnd then .ok none
        else if totalSize < bodyEnd + 8 then .ok none
        else
          let contentIndexSize := bigEndianAt data (offset + bodyEnd + 4) 4
          if totalSize < bodyEnd + contentIndexSize then .ok none
          else
            .ok (some {
              signatureType
              ticketSignature := (data.drop (offset + 4)).take signatureSize
              ticketBody := (data.drop (offset + bodyStart)).take ticketBodySize
              contentIndex := (data.drop (offset + bodyEnd)).take contentIndexSize
              serializedSize := totalSize })

/-- What `Serialize` writes before the body. -/
def front (t : Ticket) : List UInt8 :=
  let front := (toBytes 4 t.signatureType).reverse ++ t.ticketSignature
  front ++ List.replicate (0x40 - front.length % 0x40) 0

def serialize (t : Ticket) : List UInt8 := t.front ++ t.ticketBody ++ t.contentIndex

/-- What a ticket is loaded with. -/
structure Loaded (t : Ticket) : Prop where
  signatureType_lt : t.signatureType < 2 ^ 32
  signatureSize_ne : getSignatureSize t.signatureType ≠ 0
  length_signature : t.ticketSignature.length = getSignatureSize t.signatureType
  length_body : t.ticketBody.length = ticketBodySize
  contentIndex_lt : t.contentIndex.length < 2 ^ 32
  size : 8 ≤ t.contentIndex.length → bigEndianAt t.contentIndex 4 4 = t.contentIndex.length

theorem bigEndianAt_lt (s : List UInt8) (i width : Nat) : bigEndianAt s i width < 256 ^ width := by
  have hlength : ((s.drop i).take width).reverse.length ≤ width := by
    rw [List.length_reverse]
    exact List.length_take_le ..
  exact (ofBytes_lt _).trans_le (Nat.pow_le_pow_right (by decide) hlength)

theorem bigEndianAt_take_drop {s : List UInt8} {i n j width : Nat} (h : j + width ≤ n) :
    bigEndianAt ((s.drop i).take n) j width = bigEndianAt s (i + j) width := by
  unfold bigEndianAt
  rw [List.drop_take, List.take_take, List.drop_drop, min_eq_left (by omega)]

theorem length_take_drop {s : List UInt8} {i n : Nat} (h : i + n ≤ s.length) :
    ((s.drop i).take n).length = n := by
  rw [List.length_take, List.length_drop]
  omega

theorem le_bodyStart (type : Nat) :
    getSignatureSize type + 4 ≤ alignUp (getSignatureSize type + 4) 0x40 :=
  le_alignUp (by decide)

variable {data : List UInt8} {offset : Nat} {t t' : Ticket}

theorem loaded_of_read (h : read data offset = .ok (some t)) : t.Loaded := by
  unfold read at h
  dsimp only at h
  split_ifs at h with hoffset hsmall hsize hbody hindex hblob <;>
    simp only [Except.ok.injEq, reduceCtorEq, Option.some.injEq] at h
  subst h
  have hstart := le_bodyStart (bigEndianAt data offset 4)
  have hcontent := bigEndianAt_lt data (offset + (alignUp (getSignatureSize
    (bigEndianAt data offset 4) + 4) 0x40 + ticketBodySize) + 4) 4
  constructor
  · exact bigEndianAt_lt data offset 4
  · exact hsize
  · exact length_take_drop (by omega)
  · exact length_take_drop (by omega)
  · dsimp only
    rw [length_take_drop (by omega)]
    exact hcontent
  · dsimp only
    rw [length_take_drop (by omega)]
    exact fun hle => bigEndianAt_take_drop (by omega)

/-- The ticket is loaded again with the type, the signature, the body and the blob it has. -/
def Restores (t : Ticket) : Prop :=
  ∃ t', read t.serialize 0 = .ok (some t') ∧ t'.signatureType = t.signatureType ∧
    t'.ticketSignature = t.ticketSignature ∧ t'.ticketBody = t.ticketBody ∧
    t'.contentIndex = t.contentIndex

/-- The signature and the type fill 64 bytes. -/
def IsElliptic (t : Ticket) : Prop := getSignatureSize t.signatureType = 0x3C

instance (t : Ticket) : Decidable t.IsElliptic := inferInstanceAs (Decidable (_ = _))

/-- A blob that has the length it says, or nothing but zeros behind a signature that fills 64
bytes. -/
def Restorable (t : Ticket) : Prop :=
  if t.IsElliptic then t.ticketBody = List.replicate ticketBodySize 0 ∧ t.contentIndex = []
  else 8 ≤ t.contentIndex.length

theorem signatureSize_cases (type : Nat) : getSignatureSize type = 0x200 ∨
    getSignatureSize type = 0x100 ∨ getSignatureSize type = 0x3C ∨ getSignatureSize type = 0 := by
  unfold getSignatureSize
  split <;> simp

section Serialize

variable (h : t.Loaded)

include h

theorem bigEndianAt_serialize : bigEndianAt t.serialize 0 4 = t.signatureType := by
  have htake : (t.serialize.drop 0).take 4 = (toBytes 4 t.signatureType).reverse := by
    unfold serialize front
    rw [List.drop_zero, List.append_assoc, List.append_assoc, List.append_assoc]
    exact List.take_left' (by simp)
  unfold bigEndianAt
  rw [htake, List.reverse_reverse, ofBytes_toBytes]
  exact Nat.mod_eq_of_lt h.signatureType_lt

theorem signature_serialize :
    (t.serialize.drop 4).take (getSignatureSize t.signatureType) = t.ticketSignature := by
  have hdrop : t.serialize.drop 4 = t.ticketSignature ++ (List.replicate (0x40 -
      ((toBytes 4 t.signatureType).reverse ++ t.ticketSignature).length % 0x40) 0 ++
        t.ticketBody ++ t.contentIndex) := by
    unfold serialize front
    simp only [List.append_assoc]
    exact List.drop_left' (by simp)
  rw [hdrop]
  exact List.take_left' h.length_signature

theorem length_front : t.front.length = 4 + getSignatureSize t.signatureType +
    (0x40 - (4 + getSignatureSize t.signatureType) % 0x40) := by
  unfold front
  simp [h.length_signature, Nat.add_assoc]

theorem length_serialize : t.serialize.length =
    t.front.length + ticketBodySize + t.contentIndex.length := by
  unfold serialize
  rw [List.length_append, List.length_append, h.length_body]

end Serialize

theorem restores_iff_of_not_elliptic (h : t.Loaded) (hne : ¬ t.IsElliptic) :
    t.Restores ↔ 8 ≤ t.contentIndex.length := by
  have hstart : alignUp (getSignatureSize t.signatureType + 4) 0x40 = t.front.length := by
    rw [length_front h]
    rcases signatureSize_cases t.signatureType with hsize | hsize | hsize | hsize
    · rw [hsize]
      decide
    · rw [hsize]
      decide
    · exact absurd hsize hne
    · exact absurd hsize h.signatureSize_ne
  have hlength := length_serialize h
  have hfront : 4 ≤ t.front.length := by
    rw [length_front h]
    omega
  have hbody : (t.serialize.drop t.front.length).take ticketBodySize = t.ticketBody := by
    unfold serialize
    rw [List.append_assoc, List.drop_left]
    exact List.take_left' h.length_body
  have hblob : t.serialize.drop (t.front.length + ticketBodySize) = t.contentIndex := by
    unfold serialize
    exact List.drop_left' (by rw [List.length_append, h.length_body])
  have hsize : bigEndianAt t.serialize (t.front.length + ticketBodySize + 4) 4 =
      bigEndianAt t.contentIndex 4 4 := by
    unfold serialize
    rw [← h.length_body, ← List.length_append]
    exact bigEndianAt_append ..
  have hread : read t.serialize 0 =
      if t.contentIndex.length < 8 then .ok none
      else .ok (some { t with serializedSize := t.serialize.length }) := by
    unfold read
    simp only [bigEndianAt_serialize h, hstart, Nat.zero_add, Nat.sub_zero, Nat.not_lt_zero,
      if_false, h.signatureSize_ne, hbody, hblob, hsize, signature_serialize h]
    rw [if_neg (by omega), if_neg (by omega)]
    by_cases hsmall : t.contentIndex.length < 8
    · rw [if_pos hsmall, if_pos (by omega)]
    · rw [if_neg hsmall, if_neg (by omega), h.size (by omega), if_neg (by omega),
        List.take_length]
  constructor
  · rintro ⟨t', ht', -⟩
    by_contra hsmall
    rw [hread, if_pos (by omega)] at ht'
    cases ht'
  · intro hle
    rw [Restores, hread, if_neg (by omega)]
    exact ⟨_, rfl, rfl, rfl, rfl, rfl⟩

theorem eq_replicate_of_shift {l : List UInt8} {n k : Nat} (hk : 0 < k) (hl : l.length = n)
    (h : List.replicate k 0 ++ l.take (n - k) = l) : l = List.replicate n 0 := by
  have hzero : ∀ i < n, l[i]? = some 0 := by
    intro i
    induction i using Nat.strong_induction_on with
    | _ i ih =>
      intro hi
      rw [← h]
      by_cases hik : i < k
      · rw [List.getElem?_append_left (by simpa using hik), List.getElem?_replicate, if_pos hik]
      · rw [List.getElem?_append_right (by simpa using Nat.le_of_not_lt hik),
          List.length_replicate, List.getElem?_take_of_lt (by omega)]
        exact ih (i - k) (by omega) (by omega)
  apply List.ext_getElem?
  intro i
  by_cases hi : i < n
  · rw [hzero i hi, List.getElem?_replicate, if_pos hi]
  · rw [List.getElem?_eq_none (by omega), List.getElem?_eq_none (by simpa using hi)]

theorem ofBytes_zeros (n : Nat) : ofBytes (List.replicate n 0) = 0 := by
  induction n with
  | zero => rfl
  | succ n ih =>
      unfold ofBytes at *
      rw [List.replicate_succ, List.foldr_cons, ih]
      rfl

theorem bigEndianAt_zeros (rest : List UInt8) {n i width : Nat} (h : i + width ≤ n) :
    bigEndianAt (List.replicate n 0 ++ rest) i width = 0 := by
  have htake : ((List.replicate n 0 ++ rest).drop i).take width = List.replicate width 0 := by
    rw [List.drop_append_of_le_length (by simp; omega), List.drop_replicate,
      List.take_append_of_le_length (by simp; omega), List.take_replicate, min_eq_left (by omega)]
  unfold bigEndianAt
  rw [htake, List.reverse_replicate, ofBytes_zeros]

theorem restores_iff_of_elliptic (h : t.Loaded) (helliptic : t.IsElliptic) :
    t.Restores ↔ t.ticketBody = List.replicate ticketBodySize 0 ∧ t.contentIndex = [] := by
  have hbodySize : ticketBodySize = 0x40 + 0x124 := rfl
  have hstart : alignUp (getSignatureSize t.signatureType + 4) 0x40 = 0x40 := by
    rw [helliptic]
    decide
  have hlength := length_serialize h
  have hfront : t.front.length = 0x80 := by
    rw [length_front h, helliptic]
  have hparts : t.serialize.drop 0x40 =
      List.replicate 0x40 0 ++ (t.ticketBody ++ t.contentIndex) := by
    have hhead : ((toBytes 4 t.signatureType).reverse ++ t.ticketSignature).length = 0x40 := by
      rw [List.length_append, h.length_signature, helliptic]
      simp
    unfold serialize front
    dsimp only
    rw [hhead, List.append_assoc, List.append_assoc, List.drop_left' hhead]
  have hbody : (t.serialize.drop 0x40).take ticketBodySize =
      List.replicate 0x40 0 ++ t.ticketBody.take (ticketBodySize - 0x40) := by
    rw [hparts, List.take_append, List.take_of_length_le (by simp [hbodySize]),
      List.length_replicate, List.take_append_of_le_length (by rw [h.length_body]; omega)]
  have hblob : t.serialize.drop (0x40 + ticketBodySize) =
      t.ticketBody.drop (ticketBodySize - 0x40) ++ t.contentIndex := by
    rw [← List.drop_drop, hparts, List.drop_append, List.length_replicate,
      List.drop_eq_nil_of_le (by simp [hbodySize]), List.nil_append,
      List.drop_append_of_le_length (by rw [h.length_body]; omega)]
  have hread : read t.serialize 0 =
      if t.serialize.length < 0x40 + ticketBodySize +
        bigEndianAt t.serialize (0x40 + ticketBodySize + 4) 4 then .ok none
      else .ok (some { t with
        ticketBody := List.replicate 0x40 0 ++ t.ticketBody.take (ticketBodySize - 0x40)
        contentIndex := (t.ticketBody.drop (ticketBodySize - 0x40) ++ t.contentIndex).take
          (bigEndianAt t.serialize (0x40 + ticketBodySize + 4) 4)
        serializedSize := t.serialize.length }) := by
    unfold read
    simp only [bigEndianAt_serialize h, hstart, Nat.zero_add, Nat.sub_zero, Nat.not_lt_zero,
      if_false, h.signatureSize_ne, hbody, hblob, signature_serialize h]
    rw [if_neg (by omega), if_neg (by omega), if_neg (by omega)]
  have hzero (hbody : t.ticketBody = List.replicate ticketBodySize 0) :
      bigEndianAt t.serialize (0x40 + ticketBodySize + 4) 4 = 0 := by
    have hdrop : t.ticketBody.drop (ticketBodySize - 0x40) = List.replicate 0x40 0 := by
      rw [hbody, List.drop_replicate]
      rfl
    rw [hdrop] at hblob
    calc bigEndianAt t.serialize (0x40 + ticketBodySize + 4) 4
        = bigEndianAt (t.serialize.drop (0x40 + ticketBodySize)) 4 4 := by
          unfold bigEndianAt
          rw [List.drop_drop]
      _ = 0 := by
          rw [hblob]
          exact bigEndianAt_zeros _ (by decide)
  constructor
  · rintro ⟨t', ht', -, -, hsame, hcontent⟩
    rw [hread] at ht'
    split_ifs at ht'
    · cases ht'
    · cases ht'
      have hbody' := eq_replicate_of_shift (by decide) h.length_body hsame
      rw [hzero hbody', List.take_zero] at hcontent
      exact ⟨hbody', hcontent.symm⟩
  · rintro ⟨hbody', hcontent⟩
    rw [Restores, hread, hzero hbody', if_neg (by omega)]
    refine ⟨_, rfl, rfl, rfl, ?_, hcontent.symm⟩
    dsimp only
    rw [hbody', List.take_replicate]
    rfl

/-- The tickets that are loaded again as they were. -/
theorem restores_iff (h : t.Loaded) : t.Restores ↔ t.Restorable := by
  unfold Restorable
  split_ifs with helliptic
  · exact restores_iff_of_elliptic h helliptic
  · exact restores_iff_of_not_elliptic h helliptic

end Ticket

end Cytrus.FileSys
