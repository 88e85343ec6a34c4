import Mathlib
import Cytrus.Am.NcchCrypto

/-!
# Encrypted content written in pieces

However a content is cut into pieces, what is written is its header without
encryption and then each byte of it, decrypted if a region contains it.

## Main results

* `round_cases`: a round writes a part that is in one region or in none
* `written_eq_decryptedContent`: what is written of a content with disjoint regions
-/

namespace Cytrus.Am

open Support

/-! ## The decrypted content -/

section Content

variable (crypto : Crypto) (content : List UInt8)

def contentHeader : NCCHHeader := .ofBytes (content.take 0x200)

def contentCiphers : Ciphers := ((contentHeader content).ciphers crypto).getD default

/-- The regions that are known from the header of the content. -/
def headerRegions : List CryptoRegion :=
  if (contentHeader content).noCrypto then [] else (contentHeader content).regions

/-- Where the ExeFS header is, unless it is the header of the content itself. -/
def exefsStart : Option Nat :=
  let header := contentHeader content
  let offset := blockBytes header.exefsOffset
  if header.noCrypto ∨ header.exefsSize = 0 ∨ offset < 0x200 then none else some offset

def exefsHdr (offset : Nat) : CryptoRegion := ⟨.exefsHdr, offset, 0x200, offset⟩

/-- The ExeFS header, decrypted, as far as it is in some bytes of the content. -/
def exefsHeaderIn (offset : Nat) (bytes : List UInt8) : List UInt8 :=
  mapFrom (crypto.processData (contentCiphers crypto content) (exefsHdr offset)) offset
    ((bytes.drop offset).take 0x200)

/-- The regions of the sections that the ExeFS header has. -/
def sectionRegions : List CryptoRegion :=
  match exefsStart content with
  | none => []
  | some offset =>
      if offset + 0x200 ≤ content.length then
        exefsSections offset (exefsHeaderIn crypto content offset content)
      else []

def cryptoRegions : List CryptoRegion := headerRegions content ++ sectionRegions crypto content

/-- A byte at a position of the content, decrypted if it is in a region. -/
def decryptAt (position : Nat) (byte : UInt8) : UInt8 :=
  match (cryptoRegions crypto content).find? (·.contains position) with
  | none => byte
  | some reg => crypto.processData (contentCiphers crypto content) reg position byte

/-- A content as it is stored. -/
def decryptedContent : List UInt8 :=
  if (contentHeader content).magic ≠ ncchMagic then content
  else
    setNoCrypto (content.take 0x200) ++
      mapFrom (decryptAt crypto content) 0x200 (content.drop 0x200)

end Content

/-- No position is in both regions. -/
def CryptoRegion.Disjoint (r s : CryptoRegion) : Prop :=
  ∀ position, r.contains position → ¬ s.contains position

/-! ## Positions -/

section Positions

variable {f g : Nat → UInt8 → UInt8} {n : Nat} {bytes : List UInt8}

theorem mapFrom_append (f : Nat → UInt8 → UInt8) (n : Nat) (front back : List UInt8) :
    mapFrom f n (front ++ back) = mapFrom f n front ++ mapFrom f (n + front.length) back := by
  rw [mapFrom, List.mapIdx_append, mapFrom, mapFrom]
  congr 2
  funext i
  rw [Nat.add_assoc, Nat.add_comm i]

theorem length_mapFrom (f : Nat → UInt8 → UInt8) (n : Nat) (bytes : List UInt8) :
    (mapFrom f n bytes).length = bytes.length := List.length_mapIdx

theorem mapFrom_congr (h : ∀ i < bytes.length, f (n + i) = g (n + i)) :
    mapFrom f n bytes = mapFrom g n bytes := by
  apply List.ext_getElem
  · rw [length_mapFrom, length_mapFrom]
  · intro i hi _
    rw [length_mapFrom] at hi
    simp only [mapFrom, List.getElem_mapIdx, h i hi]

theorem mapFrom_eq_self (h : ∀ i < bytes.length, f (n + i) = id) : mapFrom f n bytes = bytes := by
  rw [mapFrom_congr (g := fun _ => id) h, mapFrom]
  exact List.mapIdx_eq_iff.mpr fun i => by simp

variable {r s : CryptoRegion} {regions : List CryptoRegion} {position : Nat}

theorem CryptoRegion.contains_iff :
    r.contains position = true ↔ r.offset ≤ position ∧ position < r.offset + r.size := by
  rw [CryptoRegion.contains, Bool.and_eq_true, decide_eq_true_iff, decide_eq_true_iff]

theorem find?_of_disjoint (hdisjoint : regions.Pairwise CryptoRegion.Disjoint) (hr : r ∈ regions)
    (hposition : r.contains position) : regions.find? (·.contains position) = some r := by
  induction regions with
  | nil => exact absurd hr List.not_mem_nil
  | cons s regions ih =>
      obtain ⟨hs, hrest⟩ := List.pairwise_cons.mp hdisjoint
      rcases List.mem_cons.mp hr with rfl | hr
      · exact List.find?_cons_of_pos hposition
      · have hnot : ¬ s.contains position := fun h => hs r hr position h hposition
        rw [List.find?_cons_of_neg (p := fun reg : CryptoRegion => reg.contains position) hnot, ih hrest hr]

theorem exefsHdr_outside {offset k : Nat} (h : ∀ i < k, ¬ (exefsHdr offset).contains (n + i)) :
    k = 0 ∨ n + k ≤ offset ∨ offset + 0x200 ≤ n := by
  by_contra hcon
  have hin : n + (max n offset - n) = max n offset := by omega
  apply h (max n offset - n) (by omega)
  rw [hin, CryptoRegion.contains_iff]
  dsimp only [exefsHdr]
  omega

end Positions

/-! ## One round -/

theorem findClosestRegion_of_find? {offset : Nat} {regions : List CryptoRegion} {r : CryptoRegion}
    (h : regions.find? (·.contains offset) = some r) (closest : Option CryptoRegion) :
    findClosestRegion offset regions closest = some r := by
  induction regions generalizing closest with
  | nil => cases h
  | cons s regions ih =>
      rw [findClosestRegion]
      by_cases hs : s.contains offset
      · rw [if_pos hs]
        rwa [List.find?_cons_of_pos (p := fun reg : CryptoRegion => reg.contains offset) hs] at h
      · rw [List.find?_cons_of_neg (p := fun reg : CryptoRegion => reg.contains offset) hs] at h
        rw [if_neg hs, ih h, ih h, ite_self]

theorem findClosestRegion_of_none {offset : Nat} {regions : List CryptoRegion}
    (h : regions.find? (·.contains offset) = none) (closest : Option CryptoRegion)
    (hclosest : ∀ c ∈ closest, offset < c.offset) :
    match findClosestRegion offset regions closest with
    | none => closest = none ∧ ∀ r ∈ regions, r.offset ≤ offset
    | some c => offset < c.offset ∧ (∀ r ∈ regions, offset < r.offset → c.offset ≤ r.offset) ∧
        ∀ c' ∈ closest, c.offset ≤ c'.offset := by
  induction regions generalizing closest with
  | nil =>
      cases closest with
      | none => exact ⟨rfl, fun r hr => absurd hr List.not_mem_nil⟩
      | some c =>
          refine ⟨hclosest c rfl, fun r hr => absurd hr List.not_mem_nil, ?_⟩
          rintro c' ⟨⟩
          exact le_rfl
  | cons s regions ih =>
      rw [List.find?_eq_none] at h
      obtain ⟨hs, hrest⟩ := List.forall_mem_cons.mp h
      rw [← List.find?_eq_none] at hrest
      rw [findClosestRegion, if_neg hs]
      split_ifs with hbefore
      · obtain ⟨hlt, hall⟩ := hbefore
        have hnext := ih hrest (some s) (by rintro c ⟨⟩; exact hlt)
        cases hfound : findClosestRegion offset regions (some s) with
        | none =>
            rw [hfound] at hnext
            exact absurd hnext.1 (Option.some_ne_none s)
        | some c =>
            rw [hfound] at hnext
            obtain ⟨hc, hfirst, hle⟩ := hnext
            refine ⟨hc, List.forall_mem_cons.mpr ⟨fun _ => hle s rfl, hfirst⟩, fun c' hc' => ?_⟩
            have hcloser : s.offset - offset < c'.offset - offset := by
              rw [Option.mem_def] at hc'
              rw [hc'] at hall
              exact of_decide_eq_true hall
            have := hle s rfl
            omega
      · have hnext := ih hrest closest hclosest
        cases hfound : findClosestRegion offset regions closest with
        | none =>
            rw [hfound] at hnext
            obtain ⟨rfl, hle⟩ := hnext
            refine ⟨rfl, List.forall_mem_cons.mpr ⟨?_, hle⟩⟩
            by_contra hlt
            exact hbefore ⟨not_le.mp hlt, rfl⟩
        | some c =>
            rw [hfound] at hnext
            obtain ⟨hc, hfirst, hle⟩ := hnext
            refine ⟨hc, List.forall_mem_cons.mpr ⟨fun hlt => ?_, hfirst⟩, hle⟩
            by_contra hcs
            apply hbefore
            refine ⟨hlt, ?_⟩
            cases closest with
            | none => rfl
            | some c' =>
                have := hle c' rfl
                exact decide_eq_true (by omega)

namespace NCCHCryptoFile

variable {crypto : Crypto} {s : NCCHCryptoFile} {buffer : List UInt8}

/-- A round writes a part of the buffer that is in no region, or one that starts in a region and
does not leave it. -/
theorem round_cases (crypto : Crypto) (s : NCCHCryptoFile) (hbuffer : buffer ≠ []) :
    ∃ front back, front ≠ [] ∧ buffer = front ++ back ∧
      ((∀ i < front.length, ∀ r ∈ s.regions, ¬ r.contains (s.written + i)) ∧
          s.round crypto buffer = (s.writeVerbatim front, back) ∨
        ∃ r ∈ s.regions, (∀ i < front.length, r.contains (s.written + i)) ∧
          s.round crypto buffer =
            (if s.isEncrypted then s.writeDecrypted crypto r front else s.writeVerbatim front,
              back)) := by
  have hcut {k : Nat} (hk : 0 < k) : buffer.take k ≠ [] := by
    rw [Ne, List.take_eq_nil_iff, not_or]
    exact ⟨hk.ne', hbuffer⟩
  cases hfind : s.regions.find? (·.contains s.written) with
  | none =>
      have hnone := List.find?_eq_none.mp hfind
      have hclosest := findClosestRegion_of_none hfind none (by rintro c ⟨⟩)
      rw [round]
      cases hfound : findClosestRegion s.written s.regions none with
      | none =>
          rw [hfound] at hclosest
          refine ⟨buffer, [], hbuffer, (List.append_nil buffer).symm, Or.inl ⟨fun i _ r hr => ?_, rfl⟩⟩
          have hle := hclosest.2 r hr
          have hout := hnone r hr
          rw [CryptoRegion.contains_iff] at hout ⊢
          omega
      | some c =>
          rw [hfound] at hclosest
          refine ⟨_, _, hcut (k := c.offset - s.written) (by omega),
            (List.take_append_drop _ _).symm, Or.inl ⟨fun i hi r hr => ?_, if_pos hclosest.1⟩⟩
          have hle := hclosest.2.1 r hr
          have hout := hnone r hr
          rw [List.length_take] at hi
          rw [CryptoRegion.contains_iff] at hout ⊢
          omega
  | some r =>
      have hin := List.find?_some hfind
      rw [CryptoRegion.contains_iff] at hin
      rw [round, findClosestRegion_of_find? hfind]
      refine ⟨_, _, hcut (k := r.offset + r.size - s.written) (by omega),
        (List.take_append_drop _ _).symm, Or.inr ⟨r, List.mem_of_find?_eq_some hfind,
          fun i hi => ?_, if_neg (not_lt.mpr hin.1)⟩⟩
      rw [List.length_take] at hi
      rw [CryptoRegion.contains_iff]
      omega

end NCCHCryptoFile

/-! ## The header inside of the content -/

section ExefsHeader

variable {crypto : Crypto} {content p front : List UInt8} {offset : Nat} {r : CryptoRegion}

theorem exefsHdr_mem (h : exefsStart content = some offset) :
    0x200 ≤ offset ∧ exefsHdr offset ∈ headerRegions content := by
  unfold exefsStart at h
  dsimp only at h
  split_ifs at h with hnone
  obtain ⟨hcrypto, hsize, hoffset⟩ := not_or.mp hnone |>.imp_right not_or.mp
  obtain rfl := Option.some.inj h
  refine ⟨not_lt.mp hoffset, ?_⟩
  rw [headerRegions, if_neg hcrypto, NCCHHeader.regions, List.mem_append, List.mem_append,
    if_pos hsize]
  exact Or.inl (Or.inr (List.mem_singleton_self _))

theorem sectionRegions_after (h : r ∈ sectionRegions crypto content) :
    r.type ≠ .exefsHdr ∧ ∃ offset, exefsStart content = some offset ∧
      offset + 0x200 ≤ content.length ∧ offset + 0x200 ≤ r.offset := by
  unfold sectionRegions at h
  split at h
  · exact absurd h List.not_mem_nil
  · next offset hstart =>
      split_ifs at h with hlength
      · obtain ⟨i, _, hi⟩ := List.mem_filterMap.mp h
        unfold exefsSection at hi
        dsimp only at hi
        split_ifs at hi <;> obtain rfl := Option.some.inj hi
        · exact ⟨RegionType.noConfusion, offset, hstart, hlength, Nat.le_add_right _ _⟩
        · exact ⟨RegionType.noConfusion, offset, hstart, hlength, Nat.le_add_right _ _⟩
      · exact absurd h List.not_mem_nil

theorem eq_exefsHdr {position : Nat} (hr : r ∈ cryptoRegions crypto content)
    (htype : r.type = .exefsHdr) (hin : r.contains position) (hposition : 0x200 ≤ position) :
    ∃ offset, exefsStart content = some offset ∧ r = exefsHdr offset := by
  rcases List.mem_append.mp hr with hr | hr
  · unfold headerRegions at hr
    split_ifs at hr with hcrypto
    · exact absurd hr List.not_mem_nil
    · simp only [NCCHHeader.regions, List.mem_append, List.mem_ite_nil_right,
        List.mem_singleton] at hr
      rcases hr with (⟨-, rfl⟩ | ⟨hsize, rfl⟩) | ⟨-, rfl⟩
      · cases htype
      · refine ⟨_, ?_, rfl⟩
        rw [CryptoRegion.contains_iff] at hin
        have hblock : 0x200 ≤ blockBytes (contentHeader content).exefsOffset := by
          have hlt := hposition.trans_lt hin.2
          dsimp only at hlt
          unfold blockBytes at hlt ⊢
          omega
        exact if_neg (not_or.mpr ⟨hcrypto, not_or.mpr ⟨hsize, not_lt.mpr hblock⟩⟩)
      · cases htype
  · exact absurd htype (sectionRegions_after hr).1

theorem length_exefsHeaderIn :
    (exefsHeaderIn crypto content offset p).length = min 0x200 (p.length - offset) := by
  rw [exefsHeaderIn, length_mapFrom, List.length_take, List.length_drop]

theorem exefsHeaderIn_outside (h : p.length + front.length ≤ offset ∨ offset + 0x200 ≤ p.length) :
    exefsHeaderIn crypto content offset (p ++ front) = exefsHeaderIn crypto content offset p := by
  rw [exefsHeaderIn, exefsHeaderIn]
  rcases h with hbefore | hafter
  · rw [List.drop_eq_nil_of_le (by rw [List.length_append]; exact hbefore),
      List.drop_eq_nil_of_le (by omega)]
  · rw [List.drop_append_of_le_length (by omega), List.take_append_of_le_length]
    rw [List.length_drop]
    omega

theorem exefsHeaderIn_inside (hstart : offset ≤ p.length)
    (hend : p.length + front.length ≤ offset + 0x200) :
    exefsHeaderIn crypto content offset (p ++ front) = exefsHeaderIn crypto content offset p ++
      mapFrom (crypto.processData (contentCiphers crypto content) (exefsHdr offset)) p.length
        front := by
  rw [exefsHeaderIn, exefsHeaderIn, List.drop_append_of_le_length hstart,
    List.take_of_length_le (by rw [List.length_append, List.length_drop]; omega),
    List.take_of_length_le (by rw [List.length_drop]; omega), mapFrom_append, List.length_drop,
    Nat.add_sub_cancel' hstart]

end ExefsHeader

/-! ## Parts of the content -/

/-- What is known of the regions after a part of a content. -/
structure Known (crypto : Crypto) (content p : List UInt8) (s : NCCHCryptoFile) : Prop where
  regions : s.regions =
    if s.exefsHeaderProcessed then cryptoRegions crypto content else headerRegions content
  exefsHeader : ∀ offset, exefsStart content = some offset →
    s.exefsHeader = exefsHeaderIn crypto content offset p ∧
      s.exefsHeaderProcessed = decide (offset + 0x200 ≤ p.length)

namespace Known

variable {crypto : Crypto} {content p front : List UInt8} {s : NCCHCryptoFile} {offset : Nat}

theorem mem_regions (h : Known crypto content p s) {r : CryptoRegion} (hr : r ∈ s.regions) :
    r ∈ cryptoRegions crypto content := by
  rw [h.regions] at hr
  split_ifs at hr
  · exact hr
  · exact List.mem_append_left _ hr

theorem exefsHdr_mem_regions (h : Known crypto content p s)
    (hstart : exefsStart content = some offset) : exefsHdr offset ∈ s.regions := by
  have hmem := (exefsHdr_mem hstart).2
  rw [h.regions]
  split_ifs
  · exact List.mem_append_left _ hmem
  · exact hmem

theorem outside (h : Known crypto content p s) (hfront : front ≠ [])
    (hout : ∀ offset, exefsStart content = some offset →
      ∀ i < front.length, ¬ (exefsHdr offset).contains (p.length + i)) :
    Known crypto content (p ++ front) s where
  regions := h.regions
  exefsHeader offset hstart := by
    obtain ⟨hheader, hprocessed⟩ := h.exefsHeader offset hstart
    have hlength := List.length_pos_iff.mpr hfront
    have hcases : p.length + front.length ≤ offset ∨ offset + 0x200 ≤ p.length :=
      (exefsHdr_outside (hout offset hstart)).resolve_left hlength.ne'
    rw [exefsHeaderIn_outside hcases, List.length_append]
    refine ⟨hheader, hprocessed.trans (decide_eq_decide.mpr ?_)⟩
    omega

theorem find?_eq_none (h : Known crypto content p s) {k i : Nat} (hi : i < k)
    (hout : ∀ i < k, ∀ r ∈ s.regions, ¬ r.contains (p.length + i)) :
    (cryptoRegions crypto content).find? (·.contains (p.length + i)) = none := by
  rw [List.find?_eq_none]
  intro r hr hin
  by_cases hknown : r ∈ s.regions
  · exact hout i hi r hknown hin
  rw [h.regions] at hknown
  split_ifs at hknown with hprocessed
  · exact hknown hr
  -- A section comes after the header that it is in, and the part does not go past that.
  obtain ⟨-, offset, hstart, -, hafter⟩ :=
    sectionRegions_after ((List.mem_append.mp hr).resolve_left hknown)
  have hcases := exefsHdr_outside fun i hi => hout i hi _ (h.exefsHdr_mem_regions hstart)
  rw [(h.exefsHeader offset hstart).2] at hprocessed
  have hnot := of_decide_eq_false (Bool.eq_false_iff.mpr hprocessed)
  rw [CryptoRegion.contains_iff] at hin
  omega

theorem readExefsHeader (h : Known crypto content p s) (hstart : exefsStart content = some offset)
    (hstarts : p ++ front <+: content) (hle : offset ≤ p.length) (hlt : p.length < offset + 0x200)
    (hend : p.length + front.length ≤ offset + 0x200) :
    Known crypto content (p ++ front)
      (s.readExefsHeader (exefsHdr offset)
        (mapFrom (crypto.processData (contentCiphers crypto content) (exefsHdr offset)) p.length
          front)) := by
  obtain ⟨hheader, hprocessed⟩ := h.exefsHeader offset hstart
  have hregions := h.regions
  rw [decide_eq_false (not_le.mpr hlt)] at hprocessed
  rw [hprocessed, if_neg Bool.false_ne_true] at hregions
  have hlength : (exefsHeaderIn crypto content offset (p ++ front)).length =
      min 0x200 (p.length + front.length - offset) := by
    rw [length_exefsHeaderIn, List.length_append]
  have hread : s.exefsHeader.length ≠ 0x200 := by
    rw [hheader, length_exefsHeaderIn]
    omega
  unfold NCCHCryptoFile.readExefsHeader
  rw [if_pos hread]
  dsimp only
  rw [hheader, ← exefsHeaderIn_inside hle hend, hprocessed]
  have honly : ∀ offset', exefsStart content = some offset' → offset' = offset := fun offset' h' =>
    Option.some.inj (h'.symm.trans hstart)
  split_ifs with hfull
  · have hreached : offset + 0x200 ≤ (p ++ front).length := by
      rw [List.length_append]
      omega
    refine ⟨?_, fun offset' hstart' => ?_⟩
    · obtain ⟨rest, rfl⟩ := hstarts
      dsimp only
      rw [hregions, if_pos rfl, cryptoRegions, sectionRegions, hstart]
      dsimp only
      have hall := hreached.trans (List.prefix_append (p ++ front) rest).length_le
      rw [if_pos hall, exefsHeaderIn_outside (Or.inr hreached)]
      rfl
    · obtain rfl := honly offset' hstart'
      exact ⟨rfl, (decide_eq_true hreached).symm⟩
  · refine ⟨hregions.trans (if_neg Bool.false_ne_true).symm, fun offset' hstart' => ?_⟩
    obtain rfl := honly offset' hstart'
    refine ⟨rfl, (decide_eq_false ?_).symm⟩
    rw [List.length_append]
    intro hreached
    exact hfull ⟨rfl, by omega⟩

end Known

/-- The file after a part of a content that begins with its header. -/
structure Written (crypto : Crypto) (content p : List UInt8) (s : NCCHCryptoFile) : Prop where
  isError : s.isError = false
  isNotNcch : s.isNotNcch = false
  headerParsed : s.headerParsed = true
  ncchHeader : s.ncchHeader.length = 0x200
  isEncrypted : s.isEncrypted = !(contentHeader content).noCrypto
  ciphers : s.isEncrypted → s.ciphers = contentCiphers crypto content
  le : 0x200 ≤ p.length
  written : s.written = p.length
  file : s.file = setNoCrypto (content.take 0x200) ++
    mapFrom (decryptAt crypto content) 0x200 (p.drop 0x200)
  known : Known crypto content p s

namespace Written

variable {crypto : Crypto} {content p front : List UInt8} {s s' : NCCHCryptoFile} {offset : Nat}

theorem append (h : Written crypto content p s) (front : List UInt8)
    (hs' : s' =
      { s with
        file := s.file ++ mapFrom (decryptAt crypto content) p.length front
        written := s.written + front.length
        regions := s'.regions
        exefsHeader := s'.exefsHeader
        exefsHeaderProcessed := s'.exefsHeaderProcessed })
    (hknown : Known crypto content (p ++ front) s') : Written crypto content (p ++ front) s' where
  isError := (congrArg NCCHCryptoFile.isError hs').trans h.isError
  isNotNcch := (congrArg NCCHCryptoFile.isNotNcch hs').trans h.isNotNcch
  headerParsed := (congrArg NCCHCryptoFile.headerParsed hs').trans h.headerParsed
  ncchHeader := (congrArg (List.length ∘ NCCHCryptoFile.ncchHeader) hs').trans h.ncchHeader
  isEncrypted := (congrArg NCCHCryptoFile.isEncrypted hs').trans h.isEncrypted
  ciphers hcrypto := (congrArg NCCHCryptoFile.ciphers hs').trans
    (h.ciphers ((congrArg NCCHCryptoFile.isEncrypted hs').symm.trans hcrypto))
  le := h.le.trans (List.prefix_append p front).length_le
  written := by
    rw [List.length_append, ← h.written]
    exact congrArg NCCHCryptoFile.written hs'
  file := by
    rw [List.drop_append_of_le_length h.le, mapFrom_append, List.length_drop,
      Nat.add_sub_cancel' h.le, ← List.append_assoc, ← h.file]
    exact congrArg NCCHCryptoFile.file hs'
  known := hknown

theorem verbatim (h : Written crypto content p s) (hfront : front ≠ [])
    (hout : ∀ i < front.length, ∀ r ∈ s.regions, ¬ r.contains (p.length + i)) :
    Written crypto content (p ++ front) (s.writeVerbatim front) := by
  have hsame : mapFrom (decryptAt crypto content) p.length front = front :=
    mapFrom_eq_self fun i hi => by
      funext byte
      rw [decryptAt, h.known.find?_eq_none hi hout]
      rfl
  apply h.append front
  · rw [hsame]
    rfl
  · have hknown := h.known.outside hfront fun offset hstart i hi =>
      hout i hi _ (h.known.exefsHdr_mem_regions hstart)
    exact ⟨hknown.regions, hknown.exefsHeader⟩

theorem readExefsHeader_eq (s : NCCHCryptoFile) (r : CryptoRegion) (bytes : List UInt8) :
    s.readExefsHeader r bytes =
      { s with
        regions := (s.readExefsHeader r bytes).regions
        exefsHeader := (s.readExefsHeader r bytes).exefsHeader
        exefsHeaderProcessed := (s.readExefsHeader r bytes).exefsHeaderProcessed } := by
  unfold NCCHCryptoFile.readExefsHeader
  dsimp only
  split_ifs <;> rfl

theorem decrypted (h : Written crypto content p s)
    (hdisjoint : (cryptoRegions crypto content).Pairwise CryptoRegion.Disjoint)
    (hstarts : p ++ front <+: content) (hfront : front ≠ []) {r : CryptoRegion}
    (hr : r ∈ s.regions) (hin : ∀ i < front.length, r.contains (p.length + i)) :
    s.isEncrypted = true ∧ Written crypto content (p ++ front) (s.writeDecrypted crypto r front) := by
  have hmem := h.known.mem_regions hr
  have hfind {r' : CryptoRegion} (hr' : r' ∈ cryptoRegions crypto content) {i : Nat}
      (hi : r'.contains (p.length + i)) := find?_of_disjoint hdisjoint hr' hi
  have hencrypted : s.isEncrypted = true := by
    rw [h.isEncrypted, Bool.not_eq_true', Bool.eq_false_iff]
    intro hcrypto
    have hstart : exefsStart content = none := if_pos (Or.inl hcrypto)
    rw [cryptoRegions, headerRegions, if_pos hcrypto, sectionRegions, hstart] at hmem
    exact List.not_mem_nil hmem
  have htemp : mapFrom (crypto.processData s.ciphers r) s.written front =
      mapFrom (decryptAt crypto content) p.length front := by
    rw [h.ciphers hencrypted, h.written]
    refine mapFrom_congr fun i hi => ?_
    funext byte
    rw [decryptAt, hfind hmem (hin i hi)]
  have hpos := List.length_pos_iff.mpr hfront
  refine ⟨hencrypted, ?_⟩
  rw [NCCHCryptoFile.writeDecrypted]
  dsimp only
  split_ifs with htype
  · obtain ⟨offset, hstart, rfl⟩ := eq_exefsHdr hmem htype (hin 0 hpos) h.le
    have hfirst := hin 0 hpos
    have hlast := hin (front.length - 1) (by omega)
    rw [CryptoRegion.contains_iff] at hfirst hlast
    dsimp only [exefsHdr] at hfirst hlast
    have hknown : Known crypto content p
        { s.writeBytes (mapFrom (crypto.processData s.ciphers (exefsHdr offset)) s.written front) with
          written := s.written + front.length } := ⟨h.known.regions, h.known.exefsHeader⟩
    have hread := hknown.readExefsHeader hstart hstarts hfirst.1 hfirst.2 (by omega)
    rw [← h.ciphers hencrypted, ← h.written] at hread
    apply h.append front
    · rw [readExefsHeader_eq, ← htemp]
      rfl
    · exact hread
  · have hknown := h.known.outside hfront fun offset hstart i hi hheader => by
      have hheader' := hfind (List.mem_append_left _ (exefsHdr_mem hstart).2) hheader
      rw [hfind hmem (hin i hi)] at hheader'
      exact htype (congrArg CryptoRegion.type (Option.some.inj hheader'))
    apply h.append front
    · rw [← htemp]
      rfl
    · exact ⟨hknown.regions, hknown.exefsHeader⟩

theorem round {buffer : List UInt8} (h : Written crypto content p s)
    (hdisjoint : (cryptoRegions crypto content).Pairwise CryptoRegion.Disjoint)
    (hstarts : p ++ buffer <+: content) (hbuffer : buffer ≠ []) :
    ∃ front, front ≠ [] ∧ buffer = front ++ (s.round crypto buffer).2 ∧
      Written crypto content (p ++ front) (s.round crypto buffer).1 := by
  obtain ⟨front, back, hfront, rfl, hround⟩ := s.round_cases crypto hbuffer
  have hshort : p ++ front <+: content := by
    rw [← List.append_assoc] at hstarts
    exact (List.prefix_append _ _).trans hstarts
  rw [h.written] at hround
  rcases hround with ⟨hout, hround⟩ | ⟨r, hr, hin, hround⟩
  · rw [hround]
    exact ⟨front, hfront, rfl, h.verbatim hfront hout⟩
  · obtain ⟨hencrypted, hwritten⟩ := h.decrypted hdisjoint hshort hfront hr hin
    rw [hround, if_pos hencrypted]
    exact ⟨front, hfront, rfl, hwritten⟩

/-- The loop, by induction on the bound for its rounds. -/
theorem writeRest {rounds : Nat} {buffer : List UInt8} (h : Written crypto content p s)
    (hdisjoint : (cryptoRegions crypto content).Pairwise CryptoRegion.Disjoint)
    (hstarts : p ++ buffer <+: content) (hrounds : buffer.length ≤ rounds) :
    Written crypto content (p ++ buffer) (s.writeRest crypto rounds buffer) := by
  induction rounds generalizing s p buffer with
  | zero =>
      obtain rfl := List.length_eq_zero_iff.mp (Nat.le_zero.mp hrounds)
      rwa [List.append_nil]
  | succ rounds ih =>
      rw [NCCHCryptoFile.writeRest]
      split_ifs with hbuffer
      · rwa [hbuffer, List.append_nil]
      · obtain ⟨front, hfront, hcut, hwritten⟩ := h.round hdisjoint hstarts hbuffer
        have hlength := congrArg List.length hcut
        rw [List.length_append] at hlength
        have hpos := List.length_pos_iff.mpr hfront
        have hrest := ih hwritten (by rwa [List.append_assoc, ← hcut]) (by omega)
        rwa [List.append_assoc, ← hcut] at hrest

end Written

/-! ## Calls -/

section Calls

variable {crypto : Crypto} {content p : List UInt8} {s : NCCHCryptoFile}

/-- The file before anything is written. -/
def created : NCCHCryptoFile := { decryptionAuthorized := true }

theorem written_parseHeader (hlength : 0x200 ≤ content.length)
    (hmagic : (contentHeader content).magic = ncchMagic)
    (hciphers : (contentHeader content).noCrypto = false →
      ((contentHeader content).ciphers crypto).isSome) :
    Written crypto content (content.take 0x200)
      (NCCHCryptoFile.parseHeader crypto { created with ncchHeader := content.take 0x200 }) := by
  have htake : (content.take 0x200).length = 0x200 := List.length_take_of_le hlength
  have hdrop : (content.take 0x200).drop 0x200 = [] := List.drop_eq_nil_of_le htake.le
  have hstart (t : NCCHCryptoFile) (hprocessed : t.exefsHeaderProcessed = false)
      (hheader : t.exefsHeader = []) (hregions : t.regions = headerRegions content) :
      Known crypto content (content.take 0x200) t := by
    refine ⟨by rw [hprocessed, hregions, if_neg Bool.false_ne_true], fun offset hoffset => ?_⟩
    have hle := (exefsHdr_mem hoffset).1
    rw [hheader, hprocessed, exefsHeaderIn, List.drop_eq_nil_of_le (htake.trans_le hle), htake]
    exact ⟨rfl, (decide_eq_false (by omega)).symm⟩
  by_cases hcrypto : (contentHeader content).noCrypto
  · have hparse : NCCHCryptoFile.parseHeader crypto
        { created with ncchHeader := content.take 0x200 } = NCCHCryptoFile.writeHeader
          { created with ncchHeader := content.take 0x200, headerParsed := true } :=
      (if_neg (not_not_intro hmagic)).trans (if_pos hcrypto)
    rw [hparse]
    refine ⟨rfl, rfl, rfl, htake, ?_, ?_, htake.ge, htake.symm, ?_, hstart _ rfl rfl ?_⟩
    · rw [hcrypto]
      rfl
    · exact fun h => absurd h Bool.false_ne_true
    · rw [hdrop]
      exact (List.append_nil _).symm
    · rw [headerRegions, if_pos hcrypto]
      rfl
  · obtain ⟨ciphers, hsome⟩ := Option.isSome_iff_exists.mp
      (hciphers (Bool.eq_false_iff.mpr hcrypto))
    have hparse : NCCHCryptoFile.parseHeader crypto
        { created with ncchHeader := content.take 0x200 } = NCCHCryptoFile.writeHeader
          { created with
            ncchHeader := content.take 0x200
            isEncrypted := true
            headerParsed := true
            ciphers := ciphers
            regions := (contentHeader content).regions } := by
      refine (if_neg (not_not_intro hmagic)).trans ((if_neg hcrypto).trans
        ((if_neg Bool.false_ne_true).trans ?_))
      dsimp only
      rw [show NCCHHeader.ofBytes (content.take 0x200) = contentHeader content from rfl, hsome]
      rfl
    rw [hparse]
    refine ⟨rfl, rfl, rfl, htake, ?_, ?_, htake.ge, htake.symm, ?_, hstart _ rfl rfl ?_⟩
    · rw [Bool.eq_false_iff.mpr hcrypto]
      rfl
    · intro _
      rw [contentCiphers, hsome]
      rfl
    · rw [hdrop]
      exact (List.append_nil _).symm
    · rw [headerRegions, if_neg hcrypto]
      rfl

/-- The file after a part of a content. -/
def Arrived (crypto : Crypto) (content p : List UInt8) (s : NCCHCryptoFile) : Prop :=
  if p.length < 0x200 then s = { created with ncchHeader := p }
  else if (contentHeader content).magic ≠ ncchMagic then
    s.isError = false ∧ s.isNotNcch = true ∧ s.file = p
  else Written crypto content p s

theorem Written.writeContent {buffer : List UInt8} (h : Written crypto content p s)
    (hdisjoint : (cryptoRegions crypto content).Pairwise CryptoRegion.Disjoint)
    (hstarts : p ++ buffer <+: content) :
    Written crypto content (p ++ buffer) (s.writeContent crypto buffer) := by
  rw [NCCHCryptoFile.writeContent, h.isError, h.isNotNcch, if_neg Bool.false_ne_true,
    if_neg Bool.false_ne_true]
  exact h.writeRest hdisjoint hstarts le_rfl

variable {buffer : List UInt8}

theorem write_created (hshort : (p ++ buffer).length < 0x200) :
    NCCHCryptoFile.write crypto { created with ncchHeader := p } buffer =
      { created with ncchHeader := p ++ buffer } := by
  have hmissing : buffer.length ≤ 0x200 - p.length := by
    rw [List.length_append] at hshort
    omega
  show (NCCHCryptoFile.readHeader crypto { created with ncchHeader := p }
    (buffer.take (0x200 - p.length))).writeContent crypto (buffer.drop (0x200 - p.length)) = _
  rw [List.take_of_length_le hmissing, List.drop_eq_nil_of_le hmissing,
    show NCCHCryptoFile.readHeader crypto { created with ncchHeader := p } buffer =
      { created with ncchHeader := p ++ buffer } from if_neg fun hboth => hshort.ne hboth.2]
  rfl

theorem write_header (crypto : Crypto) (hstarted : p.length < 0x200) (hlong : 0x200 ≤ (p ++ buffer).length)
    (hstarts : p ++ buffer <+: content) :
    content.take 0x200 ++ buffer.drop (0x200 - p.length) = p ++ buffer ∧
      NCCHCryptoFile.write crypto { created with ncchHeader := p } buffer =
        (NCCHCryptoFile.parseHeader crypto
          { created with ncchHeader := content.take 0x200 }).writeContent crypto
            (buffer.drop (0x200 - p.length)) := by
  have hheader : p ++ buffer.take (0x200 - p.length) = content.take 0x200 := by
    obtain ⟨rest, rfl⟩ := hstarts
    rw [List.take_append_of_le_length hlong, List.take_append, List.take_of_length_le hstarted.le]
  have hlength : (content.take 0x200).length = 0x200 :=
    List.length_take_of_le (hlong.trans hstarts.length_le)
  constructor
  · rw [← hheader, List.append_assoc, List.take_append_drop]
  · show (NCCHCryptoFile.readHeader crypto { created with ncchHeader := p }
      (buffer.take (0x200 - p.length))).writeContent crypto (buffer.drop (0x200 - p.length)) = _
    unfold NCCHCryptoFile.readHeader
    dsimp only
    rw [hheader, if_pos ⟨rfl, hlength⟩]

theorem Written.write (h : Written crypto content p s)
    (hdisjoint : (cryptoRegions crypto content).Pairwise CryptoRegion.Disjoint)
    (hstarts : p ++ buffer <+: content) :
    Written crypto content (p ++ buffer) (s.write crypto buffer) := by
  have hsame : s.readHeader crypto [] = s := by
    have hkept : { s with ncchHeader := s.ncchHeader ++ [] } = s := by rw [List.append_nil]
    refine (if_neg fun hboth => ?_).trans hkept
    have hparsed := Bool.not_eq_true' _ |>.mp hboth.1
    exact Bool.noConfusion (h.headerParsed.symm.trans hparsed)
  rw [NCCHCryptoFile.write, h.isError, h.isNotNcch, if_neg Bool.false_ne_true,
    if_neg Bool.false_ne_true, h.ncchHeader]
  show Written _ _ _ ((s.readHeader crypto []).writeContent crypto buffer)
  rw [hsame]
  exact h.writeContent hdisjoint hstarts

theorem Arrived.write (h : Arrived crypto content p s) (hstarts : p ++ buffer <+: content)
    (hciphers : (contentHeader content).magic = ncchMagic →
      (contentHeader content).noCrypto = false →
      ((contentHeader content).ciphers crypto).isSome)
    (hdisjoint : (cryptoRegions crypto content).Pairwise CryptoRegion.Disjoint) :
    Arrived crypto content (p ++ buffer) (s.write crypto buffer) := by
  unfold Arrived at h ⊢
  have hlength : p.length ≤ (p ++ buffer).length := (List.prefix_append p buffer).length_le
  by_cases hstarted : p.length < 0x200
  · rw [if_pos hstarted] at h
    subst h
    by_cases hshort : (p ++ buffer).length < 0x200
    · rw [if_pos hshort, write_created hshort]
    · obtain ⟨hsplit, hwrite⟩ := write_header crypto hstarted (not_lt.mp hshort) hstarts
      rw [if_neg hshort, hwrite]
      by_cases hmagic : (contentHeader content).magic = ncchMagic
      · have hwritten := written_parseHeader ((not_lt.mp hshort).trans hstarts.length_le) hmagic
          (hciphers hmagic)
        rw [if_neg (not_not_intro hmagic), ← hsplit]
        exact hwritten.writeContent hdisjoint (hsplit ▸ hstarts)
      · have hparse : NCCHCryptoFile.parseHeader crypto
            { created with ncchHeader := content.take 0x200 } =
              { created with
                ncchHeader := content.take 0x200
                file := content.take 0x200
                isNotNcch := true } := if_pos hmagic
        rw [if_pos hmagic, hparse, ← hsplit]
        exact ⟨rfl, rfl, rfl⟩
  · rw [if_neg hstarted] at h
    rw [if_neg fun hshort => hstarted (hlength.trans_lt hshort)]
    split_ifs at h ⊢ with hmagic
    · rw [NCCHCryptoFile.write, h.1, h.2.1, if_neg Bool.false_ne_true, if_pos rfl]
      exact ⟨h.1, h.2.1, congrArg (· ++ buffer) h.2.2⟩
    · exact h.write hdisjoint hstarts

/-- The calls, by induction on the pieces. -/
theorem Arrived.writes {pieces : List (List UInt8)} (h : Arrived crypto content p s)
    (hcontent : p ++ pieces.flatten = content)
    (hciphers : (contentHeader content).magic = ncchMagic →
      (contentHeader content).noCrypto = false →
      ((contentHeader content).ciphers crypto).isSome)
    (hdisjoint : (cryptoRegions crypto content).Pairwise CryptoRegion.Disjoint) :
    Arrived crypto content content (pieces.foldl (·.write crypto ·) s) := by
  induction pieces generalizing p s with
  | nil =>
      rw [List.flatten_nil, List.append_nil] at hcontent
      exact hcontent ▸ h
  | cons piece pieces ih =>
      rw [List.flatten_cons, ← List.append_assoc] at hcontent
      exact ih (h.write (hcontent ▸ List.prefix_append _ _) hciphers hdisjoint) hcontent

/-- What is written does not depend on the pieces. -/
theorem written_eq_decryptedContent (crypto : Crypto) (content : List UInt8)
    (pieces : List (List UInt8)) (hpieces : pieces.flatten = content)
    (hlength : 0x200 ≤ content.length)
    (hkeys : (contentHeader content).magic = ncchMagic →
      (contentHeader content).noCrypto = false → ((contentHeader content).keys crypto).isSome)
    (hversion : (contentHeader content).magic = ncchMagic →
      (contentHeader content).noCrypto = false → (contentHeader content).version ≤ 2)
    (hdisjoint : (cryptoRegions crypto content).Pairwise CryptoRegion.Disjoint) :
    (pieces.foldl (·.write crypto ·) created).isError = false ∧
      (pieces.foldl (·.write crypto ·) created).file = decryptedContent crypto content := by
  have hstart : Arrived crypto content [] created := by
    rw [Arrived, if_pos (show ([] : List UInt8).length < 0x200 from Nat.succ_pos 511)]
    rfl
  have hend := hstart.writes (by rw [List.nil_append, hpieces])
    (fun hmagic hcrypto => by
      obtain ⟨keys, hsome⟩ := Option.isSome_iff_exists.mp (hkeys hmagic hcrypto)
      obtain ⟨counters, hcounters⟩ : ∃ c, (contentHeader content).counters = some c := by
        have hle := hversion hmagic hcrypto
        unfold NCCHHeader.counters
        split_ifs with h₁ h₂
        · exact ⟨_, rfl⟩
        · exact ⟨_, rfl⟩
        · omega
      rw [NCCHHeader.ciphers, hsome, hcounters]
      rfl) hdisjoint
  rw [Arrived, if_neg (not_lt.mpr hlength)] at hend
  rw [decryptedContent]
  split_ifs at hend ⊢ with hmagic
  · exact ⟨hend.1, hend.2.2⟩
  · exact ⟨hend.isError, hend.file⟩

/-- Content with a region for the extended header, and two bytes of that. -/
def encryptedContent (version : UInt8) : List UInt8 :=
  ((((((((List.replicate 0x200 0).set 0x100 0x4E).set 0x101 0x43).set 0x102 0x43).set
    0x103 0x48).set 0x112 version).set 0x180 1).set 0x18F 1) ++ [1, 2]

/-- The start of the keystream of the key and the counter that the content has. -/
def fixedKeyCrypto : Crypto where
  normalKey := fun _ _ => none
  sha256 := id
  getSeed := fun _ => none
  keystream := fun _ _ position => [0x0C, 0x54].getD position 0

theorem written_eq_decryptedContent_encrypted :
    ([(encryptedContent 0).take 7, (encryptedContent 0).drop 7].foldl
        (·.write fixedKeyCrypto ·) created).isError = false ∧
      ([(encryptedContent 0).take 7, (encryptedContent 0).drop 7].foldl
        (·.write fixedKeyCrypto ·) created).file =
          decryptedContent fixedKeyCrypto (encryptedContent 0) := by
  have hregions : cryptoRegions fixedKeyCrypto (encryptedContent 0) =
      [⟨.exheader, 0x200, 0x800, 0x200⟩] := by decide
  exact written_eq_decryptedContent fixedKeyCrypto (encryptedContent 0) _ (by decide +kernel)
    (by decide +kernel) (fun _ _ => by decide +kernel) (fun _ _ => by decide +kernel)
    (hregions ▸ List.pairwise_singleton _ _)

/-- Of a content with a further version nothing is written. -/
theorem not_written_eq_decryptedContent :
    ¬ ∀ (crypto : Crypto) (content : List UInt8) (pieces : List (List UInt8)),
      pieces.flatten = content → 0x200 ≤ content.length →
      ((contentHeader content).magic = ncchMagic → (contentHeader content).noCrypto = false →
        ((contentHeader content).keys crypto).isSome) →
      (cryptoRegions crypto content).Pairwise CryptoRegion.Disjoint →
      (pieces.foldl (·.write crypto ·) created).file = decryptedContent crypto content := by
  intro h
  have hregions : cryptoRegions fixedKeyCrypto (encryptedContent 3) =
      [⟨.exheader, 0x200, 0x800, 0x200⟩] := by decide
  have hwritten := h fixedKeyCrypto (encryptedContent 3) [encryptedContent 3] (by decide +kernel)
    (by decide +kernel) (fun _ _ => by decide +kernel) (hregions ▸ List.pairwise_singleton _ _)
  exact absurd (congrArg List.length hwritten) (by decide +kernel)

end Calls

end Cytrus.Am
