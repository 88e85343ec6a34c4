import Mathlib
import Cytrus.Am.CiaFile

/-!
# Chunks of an installation

However a well-formed CIA file is cut into chunks, every content file is handed
its own bytes of it, unless a chunk starts behind the first byte of the header and
ends behind the header: then `Write` copies more than the buffered header holds.

## Main results

* `writeContentAt_post`: one content takes what a chunk holds of it
* `write_post`: one chunk
* `installs_iff`: all chunks of a file
-/

namespace Cytrus.Am

open Support FileSys
open Exec (post_bind post_get post_when post_pure post_assert post_ite)

/-! ## Well-formed files -/

/-- The container once the header of a file is read. -/
def headerContainer (image : List UInt8) : CIAContainer :=
  { hasHeader := true, ciaHeader := CIAHeader.read (image.take ciaHeaderSize) }

/-- The container once the title metadata is read, too. -/
def imageContainer (image : List UInt8) (tmd : TitleMetadata) : CIAContainer :=
  { headerContainer image with ciaTmd := tmd }

def contentBytes (image : List UInt8) (tmd : TitleMetadata) (i : Nat) : List UInt8 :=
  (image.drop ((imageContainer image tmd).getContentOffset i)).take
    ((imageContainer image tmd).getContentSize i)

/-- The bytes are an NCCH with encryption. -/
def NcchEncrypted (bytes : List UInt8) : Prop :=
  0x200 ≤ bytes.length ∧ (bytes.drop 0x100).take 4 = [78, 67, 67, 72] ∧
    (bytes.getD 0x18F 0).toNat.testBit 2 = false

instance (bytes : List UInt8) : Decidable (NcchEncrypted bytes) :=
  inferInstanceAs (Decidable (_ ∧ _ ∧ _))

/-- The sections are where the header says, and no content is encrypted. -/
structure WellFormed (image : List UInt8) (tmd : TitleMetadata) : Prop where
  headerSize : (headerContainer image).ciaHeader.headerSize = ciaHeaderSize
  ticket : Ticket.load (image.take ((headerContainer image).getContentOffset 0))
    (headerContainer image).getTicketOffset = .ok .success
  tmd_eq : ({} : TitleMetadata).load (image.take ((headerContainer image).getContentOffset 0))
    (headerContainer image).getTitleMetadataOffset = .ok (.success, tmd)
  index : ∀ i (h : i < tmd.chunks.length), tmd.chunks[i].index = i
  plain : ∀ i (h : i < tmd.chunks.length),
    (headerContainer image).ciaHeader.isContentPresent i = true → tmd.chunks[i].encrypted = false
  notEncrypted : ∀ i < tmd.getContentCount, ¬ NcchEncrypted (contentBytes image tmd i)
  length : (imageContainer image tmd).getContentOffset tmd.getContentCount ≤ image.length

/-- One of the chunks starts behind the first byte of the header and ends behind the header. -/
def CutsHeader : Nat → List (List UInt8) → Prop
  | _, [] => False
  | offset, buffer :: rest =>
      (0 < offset ∧ offset < ciaHeaderSize ∧ ciaHeaderSize < offset + buffer.length) ∨
        CutsHeader (offset + buffer.length) rest

/-- Writing the chunks hands every content file its bytes, and nothing is missing when the file is
closed. -/
def Installs (host : CIAHost) (image : List UInt8) (tmd : TitleMetadata)
    (chunks : List (List UInt8)) : Prop :=
  ∃ f, writeChunks host 0 chunks {} = .value ⟨⟩ f ∧
    (∀ i < tmd.getContentCount, f.contentFiles i = contentBytes image tmd i) ∧
    f.isComplete = true

section Image

variable {host : CIAHost} {image : List UInt8} {tmd : TitleMetadata}

theorem getContentOffset_succ (c : CIAContainer) (i : Nat) :
    c.getContentOffset (i + 1) = c.getContentOffset i + c.getContentSize i := by
  simp only [CIAContainer.getContentOffset, List.range_succ, List.map_append, List.sum_append,
    List.map_singleton, List.sum_singleton, Nat.add_assoc]

theorem getContentOffset_mono (c : CIAContainer) {i j : Nat} (h : i ≤ j) :
    c.getContentOffset i ≤ c.getContentOffset j := by
  induction h with
  | refl => exact le_rfl
  | step _ ih => exact ih.trans (getContentOffset_succ c _ ▸ Nat.le_add_right _ _)

theorem contentEnd_le (c : CIAContainer) {i j : Nat} (h : i < j) :
    c.getContentOffset i + c.getContentSize i ≤ c.getContentOffset j :=
  getContentOffset_succ c i ▸ getContentOffset_mono c h

theorem WellFormed.header_le (h : WellFormed image tmd) :
    ciaHeaderSize ≤ (headerContainer image).getContentOffset 0 := by
  have hcert := @le_alignUp (headerContainer image).ciaHeader.headerSize ciaSectionAlignment
    (by decide)
  have hticket := @le_alignUp ((headerContainer image).getCertificateOffset +
    (headerContainer image).ciaHeader.certSize) ciaSectionAlignment (by decide)
  have htmd := @le_alignUp ((headerContainer image).getTicketOffset +
    (headerContainer image).ciaHeader.tikSize) ciaSectionAlignment (by decide)
  have hcontent := @le_alignUp ((headerContainer image).getTitleMetadataOffset +
    (headerContainer image).ciaHeader.tmdSize) ciaSectionAlignment (by decide)
  rw [h.headerSize] at hcert
  simp only [CIAContainer.getContentOffset, CIAContainer.getTitleMetadataOffset,
    CIAContainer.getTicketOffset, CIAContainer.getCertificateOffset, h.headerSize] at *
  omega

theorem getContentOffset_imageContainer :
    (imageContainer image tmd).getContentOffset 0 = (headerContainer image).getContentOffset 0 :=
  rfl

theorem NcchEncrypted.of_take {bytes : List UInt8} {n : Nat} (h : NcchEncrypted (bytes.take n)) :
    NcchEncrypted bytes := by
  obtain ⟨hlength, hmagic, hcrypto⟩ := h
  rw [List.length_take] at hlength
  rw [List.drop_take, List.take_take, min_eq_left (by omega)] at hmagic
  rw [List.getD_eq_getElem?_getD, List.getElem?_take_of_lt (by omega),
    ← List.getD_eq_getElem?_getD] at hcrypto
  exact ⟨by omega, hmagic, hcrypto⟩

theorem WellFormed.ncchIsError (h : WellFormed image tmd) {i : Nat} (hi : i < tmd.getContentCount)
    (n : Nat) : Am.ncchIsError host ((contentBytes image tmd i).take n) = false := by
  by_contra herror
  rw [Bool.not_eq_false] at herror
  simp only [Am.ncchIsError, Bool.and_eq_true, decide_eq_true_eq, Bool.not_eq_true'] at herror
  exact h.notEncrypted i hi (NcchEncrypted.of_take ⟨herror.1.1.1, herror.1.1.2, herror.1.2⟩)

/-! ## Contents -/

/-- How much of a content is behind a position of the file. -/
def taken (image : List UInt8) (tmd : TitleMetadata) (i pos : Nat) : Nat :=
  min (pos - (imageContainer image tmd).getContentOffset i)
    ((imageContainer image tmd).getContentSize i)

/-- The first `i` contents were handed all that is there before one position, the others all that
is there before another one. A content of which a part was handed is the current one. -/
structure Contents (image : List UInt8) (tmd : TitleMetadata) (written : Nat) (pos : Nat → Nat)
    (f : CIAFile) : Prop where
  written_eq : f.written = written
  installState : f.installState = .tmdLoaded
  container : f.container = imageContainer image tmd
  length : f.contentWritten.length = tmd.getContentCount
  contentWritten : ∀ j < tmd.getContentCount,
    f.contentWritten.getD j 0 = taken image tmd j (pos j)
  contentFiles : ∀ j < tmd.getContentCount,
    f.contentFiles j = (contentBytes image tmd j).take (taken image tmd j (pos j))
  current : ∀ j < tmd.getContentCount, 0 < taken image tmd j (pos j) →
    taken image tmd j (pos j) < (imageContainer image tmd).getContentSize j →
      f.currentContentIndex = some j

/-- Where the contents stand while a chunk is handed to them. -/
def during (first last i : Nat) : Nat → Nat := fun j => if j < i then last else first

theorem during_succ_self (first last i : Nat) : during first last (i + 1) i = last :=
  if_pos (Nat.lt_succ_self i)

theorem during_self (first last i : Nat) : during first last i i = first :=
  if_neg (Nat.lt_irrefl i)

theorem during_succ_of_ne {first last i j : Nat} (h : j ≠ i) :
    during first last (i + 1) j = during first last i j := by
  simp only [during, show j < i + 1 ↔ j < i by omega]

variable {written offset i n : Nat} {f : CIAFile}

theorem Contents.congr {pos pos' : Nat → Nat} (h : Contents image tmd written pos f)
    (hpos : ∀ j < tmd.getContentCount, pos j = pos' j) : Contents image tmd written pos' f where
  written_eq := h.written_eq
  installState := h.installState
  container := h.container
  length := h.length
  contentWritten j hj := hpos j hj ▸ h.contentWritten j hj
  contentFiles j hj := hpos j hj ▸ h.contentFiles j hj
  current j hj := hpos j hj ▸ h.current j hj

theorem Contents.skip (h : Contents image tmd written (during offset (offset + n) i) f)
    (hsame : taken image tmd i (offset + n) = taken image tmd i offset) :
    Contents image tmd written (during offset (offset + n) (i + 1)) f := by
  have htaken : ∀ j, taken image tmd j (during offset (offset + n) (i + 1) j) =
      taken image tmd j (during offset (offset + n) i j) := by
    intro j
    by_cases hj : j = i
    · rw [hj, during_succ_self, during_self, hsame]
    · rw [during_succ_of_ne hj]
  exact {
    h with
    contentWritten := fun j hj => (h.contentWritten j hj).trans (htaken j).symm
    contentFiles := fun j hj => htaken j ▸ h.contentFiles j hj
    current := fun j hj => htaken j ▸ h.current j hj }

theorem drop_take_contentBytes {start available done : Nat}
    (hstart : offset + start = (imageContainer image tmd).getContentOffset i + done)
    (hchunk : start + available ≤ n)
    (hcontent : done + available ≤ (imageContainer image tmd).getContentSize i) :
    (((image.drop offset).take n).drop start).take available =
      ((contentBytes image tmd i).drop done).take available := by
  rw [contentBytes, List.drop_take, List.drop_take, List.drop_drop, List.drop_drop, List.take_take,
    List.take_take, hstart, min_eq_left (by omega), min_eq_left (by omega)]

theorem Contents.take (h : Contents image tmd written (during offset (offset + n) i) f)
    (hi : i < tmd.getContentCount)
    (hmore : taken image tmd i offset < (imageContainer image tmd).getContentSize i)
    (hreach : (imageContainer image tmd).getContentOffset i ≤ offset + n)
    {g : CIAFile} (hwritten : g.written = f.written) (hstate : g.installState = f.installState)
    (hcontainer : g.container = f.container) (hcurrent : g.currentContentIndex = some i)
    (hcount : g.contentWritten = f.contentWritten.modify i
      (· + (taken image tmd i (offset + n) - taken image tmd i offset)))
    (hfile : g.contentFiles i = (contentBytes image tmd i).take (taken image tmd i (offset + n)))
    (hothers : ∀ j ≠ i, g.contentFiles j = f.contentFiles j) :
    Contents image tmd written (during offset (offset + n) (i + 1)) g := by
  have hgrows : taken image tmd i offset ≤ taken image tmd i (offset + n) := by
    unfold taken
    omega
  constructor
  case written_eq => exact hwritten.trans h.written_eq
  case installState => exact hstate.trans h.installState
  case container => exact hcontainer.trans h.container
  case length => rw [hcount, List.length_modify, h.length]
  case contentWritten =>
    intro j hj
    rw [hcount, List.getD_eq_getElem?_getD, List.getElem?_modify]
    by_cases hji : j = i
    · subst hji
      have hold := h.contentWritten j hj
      rw [List.getD_eq_getElem?_getD, during_self,
        List.getElem?_eq_getElem (h.length ▸ hj)] at hold
      rw [during_succ_self, List.getElem?_eq_getElem (h.length ▸ hj)]
      simp only [Option.getD_some, if_true, Option.map_eq_map, Option.map_some] at hold ⊢
      omega
    · rw [during_succ_of_ne hji, ← h.contentWritten j hj, List.getD_eq_getElem?_getD]
      simp [Ne.symm hji]
  case contentFiles =>
    intro j hj
    by_cases hji : j = i
    · rw [hji, during_succ_self, hfile]
    · rw [during_succ_of_ne hji, hothers j hji, h.contentFiles j hj]
  case current =>
    -- A content before this one is behind the end of the chunk, one after it in front of the start.
    intro j hj hsome hpart
    by_cases hji : j = i
    · rw [hji, hcurrent]
    · exfalso
      rw [during_succ_of_ne hji] at hsome hpart
      unfold taken during at *
      rcases Nat.lt_or_gt_of_ne hji with hlt | hgt
      · have hend := contentEnd_le (imageContainer image tmd) hlt
        rw [if_pos hlt] at hsome hpart
        omega
      · have hend := contentEnd_le (imageContainer image tmd) hgt
        rw [if_neg (by omega)] at hsome hpart
        omega

theorem WellFormed.not_encryptedByIndex (h : WellFormed image tmd) (hi : i < tmd.getContentCount)
    (hsize : 0 < (imageContainer image tmd).getContentSize i) :
    tmd.encryptedByIndex i = false := by
  have hpresent : (headerContainer image).ciaHeader.isContentPresent i = true := by
    by_contra habsent
    rw [CIAContainer.getContentSize, imageContainer, if_neg habsent] at hsize
    exact Nat.lt_irrefl 0 hsize
  have hplain := h.plain i hi hpresent
  simp [TitleMetadata.encryptedByIndex, List.getElem?_eq_getElem hi, hplain]

theorem writeContent_post (h : WellFormed image tmd) (hend : offset + n ≤ image.length)
    (hc : Contents image tmd written (during offset (offset + n) i) f)
    (hi : i < tmd.getContentCount)
    (hmore : taken image tmd i offset < (imageContainer image tmd).getContentSize i)
    (hreach : (imageContainer image tmd).getContentOffset i ≤ offset + n)
    {g : CIAFile} (hwritten : g.written = f.written) (hstate : g.installState = f.installState)
    (hcontainer : g.container = f.container) (hcurrent : g.currentContentIndex = some i)
    (hcount : g.contentWritten = f.contentWritten)
    (hfile : g.contentFiles i = (contentBytes image tmd i).take (taken image tmd i offset))
    (hothers : ∀ j ≠ i, g.contentFiles j = f.contentFiles j) :
    (writeContent host i (((contentBytes image tmd i).drop (taken image tmd i offset)).take
        (taken image tmd i (offset + n) - taken image tmd i offset))).Post g
      (fun _ g' => Contents image tmd written (during offset (offset + n) (i + 1)) g')
      (fun _ _ => False) (fun _ => False) := by
  have hgrows : taken image tmd i offset ≤ taken image tmd i (offset + n) := by
    unfold taken
    omega
  have hbytes : (contentBytes image tmd i).take (taken image tmd i offset) ++
      ((contentBytes image tmd i).drop (taken image tmd i offset)).take
        (taken image tmd i (offset + n) - taken image tmd i offset) =
      (contentBytes image tmd i).take (taken image tmd i (offset + n)) := by
    rw [← List.take_add, Nat.add_sub_cancel' hgrows]
  have hlength : (((contentBytes image tmd i).drop (taken image tmd i offset)).take
      (taken image tmd i (offset + n) - taken image tmd i offset)).length =
      taken image tmd i (offset + n) - taken image tmd i offset := by
    simp only [contentBytes, List.length_take, List.length_drop]
    unfold taken at hmore ⊢
    omega
  unfold writeContent
  rw [post_bind, post_assignFile, post_bind, post_get, post_ite]
  simp only [CIAFile.contentFiles_storeContent, hfile, hbytes, h.ncchIsError hi, post_assignFile]
  refine ⟨fun herror => absurd herror Bool.false_ne_true, fun _ => ?_⟩
  apply hc.take hi hmore hreach
  case hwritten => exact hwritten
  case hstate => exact hstate
  case hcontainer => exact hcontainer
  case hcurrent => exact hcurrent
  case hcount =>
    change g.contentWritten.modify i _ = _
    rw [hcount, hlength]
  case hfile => exact Function.update_self ..
  case hothers => exact fun j hj => (Function.update_of_ne hj ..).trans (hothers j hj)

theorem writeContentAt_post (h : WellFormed image tmd) (hend : offset + n ≤ image.length)
    (hi : i < tmd.getContentCount)
    (hc : Contents image tmd written (during offset (offset + n) i) f) :
    (writeContentAt host offset ((image.drop offset).take n) i).Post f
      (fun _ g => Contents image tmd written (during offset (offset + n) (i + 1)) g)
      (fun _ _ => False) (fun _ => False) := by
  have hlength : ((image.drop offset).take n).length = n := by
    rw [List.length_take, List.length_drop]
    omega
  have hdone : f.contentWritten.getD i 0 = taken image tmd i offset := by
    rw [hc.contentWritten i hi, during_self]
  have hfile : f.contentFiles i = (contentBytes image tmd i).take (taken image tmd i offset) := by
    rw [hc.contentFiles i hi, during_self]
  unfold writeContentAt
  rw [post_bind, post_get, hdone, hc.container, hlength, post_when]
  refine ⟨?_, fun hskip => hc.skip ?_⟩
  · rintro ⟨hmore, hreach, -⟩
    have hstart : offset ≤ (imageContainer image tmd).getContentOffset i +
        taken image tmd i offset := by
      unfold taken at hmore ⊢
      omega
    have htakes : min (offset + n) ((imageContainer image tmd).getContentOffset i +
        (imageContainer image tmd).getContentSize i) -
        ((imageContainer image tmd).getContentOffset i + taken image tmd i offset) =
        taken image tmd i (offset + n) - taken image tmd i offset := by
      unfold taken at hmore ⊢
      omega
    have hbytes := @drop_take_contentBytes image tmd offset i n
      ((imageContainer image tmd).getContentOffset i + taken image tmd i offset - offset)
      (taken image tmd i (offset + n) - taken image tmd i offset) (taken image tmd i offset)
      (by omega) (by unfold taken at hmore ⊢; omega) (by unfold taken at hmore ⊢; omega)
    have hplain : (imageContainer image tmd).ciaTmd.encryptedByIndex i = false :=
      h.not_encryptedByIndex hi (by omega)
    simp only [post_bind, openContent, receiveContent, post_assignFile, distance,
      post_assert, post_pure, post_get, post_ite, htakes, hbytes]
    refine ⟨fun _ => ?_, fun hbefore => hbefore hstart⟩
    have hreach' := (Nat.le_add_right _ _).trans hreach
    by_cases hopen : f.currentContentIndex = some i
    · rw [if_pos hopen, hc.container, hplain]
      refine ⟨fun hencrypted => absurd hencrypted Bool.false_ne_true, fun _ => ?_⟩
      exact writeContent_post h hend hc hi hmore hreach' rfl rfl rfl hopen rfl hfile
        fun _ _ => rfl
    · -- Nothing of it was handed before, so the file that is opened now starts empty.
      have hnone : taken image tmd i offset = 0 := by
        by_contra hsome
        have hcurrent := hc.current i hi
        rw [during_self] at hcurrent
        exact hopen (hcurrent (Nat.pos_of_ne_zero hsome) hmore)
      rw [if_neg hopen, CIAFile.container_storeContent, hc.container, hplain]
      refine ⟨fun hencrypted => absurd hencrypted Bool.false_ne_true, fun _ => ?_⟩
      apply writeContent_post h hend hc hi hmore hreach'
      case hcontainer => exact hc.container.symm
      case hfile =>
        rw [hnone, List.take_zero]
        exact Function.update_self ..
      case hothers => exact fun j hj => Function.update_of_ne hj ..
      all_goals rfl
  · unfold taken at hskip ⊢
    omega

theorem writeContentData_post (h : WellFormed image tmd) (hend : offset + n ≤ image.length)
    (hc : Contents image tmd written (fun _ => offset) f) :
    (writeContentData host offset ((image.drop offset).take n)).Post f
      (fun _ g => Contents image tmd written (fun _ => offset + n) g)
      (fun _ _ => False) (fun _ => False) := by
  have hloop : ∀ k i f, i + k = tmd.getContentCount →
      Contents image tmd written (during offset (offset + n) i) f →
      (Exec.forEach (List.range' i k)
        (writeContentAt host offset ((image.drop offset).take n))).Post f
        (fun _ g => Contents image tmd written
          (during offset (offset + n) tmd.getContentCount) g)
        (fun _ _ => False) (fun _ => False) := by
    intro k
    induction k with
    | zero =>
        rintro i f rfl hi
        exact hi
    | succ k ih =>
        intro i f hsum hi
        rw [List.range'_succ, Exec.forEach, post_bind]
        refine (writeContentAt_post h hend (by omega) hi).mono (fun _ g hg => ?_)
          (fun _ _ hg => hg) (fun _ hg => hg)
        exact ih (i + 1) g (by omega) hg
  unfold writeContentData
  rw [post_bind, post_get, hc.length, List.range_eq_range']
  refine (hloop _ 0 f (Nat.zero_add _) ?_).mono (fun _ g hg => ?_) (fun _ _ hg => hg)
    (fun _ hg => hg)
  · exact hc.congr fun _ _ => (if_neg (Nat.not_lt_zero _)).symm
  · exact hg.congr fun _ hj => if_pos hj

/-! ## Sections -/

/-- The start of the file is buffered, and no content was handed anything. -/
structure Buffered (c : CIAContainer) (state : CIAInstallState) (data : List UInt8)
    (written : Nat) (f : CIAFile) : Prop where
  written_eq : f.written = written
  installState : f.installState = state
  container : f.container = c
  data_eq : f.data = data
  contentWritten : f.contentWritten = []
  contentFiles : f.contentFiles = fun _ => []
  fromCdn : f.fromCdn = false

theorem overwrite_resized {buffer : List UInt8} {k source size : Nat}
    (hsize : k + size ≤ image.length)
    (hbuffer : (buffer.drop source).take size = (image.drop k).take size) :
    overwrite (resized (image.take k) (k + size) 0) k ((buffer.drop source).take size) =
      image.take (k + size) := by
  have hfront : (image.take k).length = k := by
    rw [List.length_take]
    omega
  have hback : ((image.drop k).take size).length = size := by
    rw [List.length_take, List.length_drop]
    omega
  have hrest : (image.take k ++ List.replicate (k + size - (image.take k).length) 0).drop
      (k + size) = [] := by
    apply List.drop_of_length_le
    rw [List.length_append, List.length_replicate, hfront]
    omega
  rw [resized_of_le (hfront.le.trans (Nat.le_add_right _ _)), hbuffer, overwrite, hback,
    List.take_left' hfront, hrest, List.append_nil, ← List.take_add]

theorem resized_copy_post {c : CIAContainer} {state : CIAInstallState} {buffer : List UInt8}
    {k source size : Nat} (h : Buffered c state (image.take k) written f)
    (hsize : k + size ≤ image.length) (hsource : source + size ≤ buffer.length)
    (hbuffer : (buffer.drop source).take size = (image.drop k).take size) :
    (copyToData k buffer source size).Post { f with data := resized f.data (k + size) 0 }
      (fun _ g => Buffered c state (image.take (k + size)) written g)
      (fun _ _ => False) (fun _ => False) := by
  have hlength : k + size ≤ (resized f.data (k + size) 0).length := by
    rw [length_resized]
  unfold copyToData
  rw [post_bind, post_get, post_bind, post_assert, post_assignFile]
  refine ⟨fun _ => ?_, fun hout => hout ⟨hlength, hsource⟩⟩
  exact { h with data_eq := by rw [h.data_eq, overwrite_resized hsize hbuffer] }

theorem writeSections_post {c : CIAContainer} {state : CIAInstallState} {k : Nat}
    (h : Buffered c state (image.take k) written f) (hstart : offset ≤ k)
    (hend : offset + n ≤ image.length) (hk : k ≤ min (offset + n) (c.getContentOffset 0))
    (hbefore : offset < c.getContentOffset 0) :
    (writeSections offset ((image.drop offset).take n)).Post f
      (fun _ g => Buffered c state
        (image.take (min (offset + n) (c.getContentOffset 0))) written g)
      (fun _ _ => False) (fun _ => False) := by
  have hlength : ((image.drop offset).take n).length = n := by
    rw [List.length_take, List.length_drop]
    omega
  have hloaded : f.data.length = k := by
    rw [h.data_eq, List.length_take]
    omega
  obtain rfl := h.container
  unfold writeSections
  simp only [post_bind, post_get, post_when, distance, post_assert,
    post_pure, post_assignFile, hloaded, hlength, max_eq_right hstart]
  refine ⟨fun _ => ⟨fun _ => ⟨fun _ => ?_, fun hout => hout (by omega)⟩,
    fun hout => hout hstart⟩, fun hout => absurd hbefore hout⟩
  have hsum : min (offset + n) (f.container.getContentOffset 0) =
      k + (min n (f.container.getContentOffset 0 - offset) - (k - offset)) := by omega
  rw [hsum]
  apply resized_copy_post h
  case hsize => omega
  case hsource =>
    rw [hlength]
    omega
  case hbuffer =>
    rw [List.drop_take, List.drop_drop, List.take_take, Nat.add_sub_cancel' hstart,
      min_eq_left (by omega)]

theorem writeTicket_post (h : WellFormed image tmd)
    (hf : Buffered (headerContainer image) .headerLoaded
      (image.take ((headerContainer image).getContentOffset 0)) written f) :
    writeTicket.Post f
      (fun _ g => Buffered (headerContainer image) .ticketLoaded
        (image.take ((headerContainer image).getContentOffset 0)) written g)
      (fun _ _ => False) (fun _ => False) := by
  unfold writeTicket
  rw [post_bind, Exec.post_lookup, hf.container, hf.data_eq, h.ticket]
  constructor
  · rintro _ ⟨⟩
    rw [if_pos rfl, post_assignFile]
    exact { hf with installState := rfl }
  · rintro _ ⟨⟩

theorem WellFormed.hasEncryptedContent (h : WellFormed image tmd) :
    tmd.hasEncryptedContent (headerContainer image).getHeader = false := by
  rw [TitleMetadata.hasEncryptedContent, List.any_eq_false]
  intro chunk hchunk hencrypted
  obtain ⟨i, hi, rfl⟩ := List.getElem_of_mem hchunk
  rw [h.index i hi, Bool.and_eq_true] at hencrypted
  have hplain := h.plain i hi hencrypted.2
  rw [hencrypted.1] at hplain
  cases hplain

theorem prepareToImportContent_post {data : List UInt8} (h : WellFormed image tmd)
    (hf : Buffered (imageContainer image tmd) .ticketLoaded data written f)
    (hoffset : offset ≤ (headerContainer image).getContentOffset 0) :
    (prepareToImportContent host).Post f
      (fun code g => code = none ∧ Contents image tmd written (fun _ => offset) g)
      (fun _ _ => False) (fun _ => False) := by
  have hnone : ∀ j, taken image tmd j offset = 0 := by
    intro j
    have hle := getContentOffset_mono (imageContainer image tmd) (Nat.zero_le j)
    rw [getContentOffset_imageContainer] at hle
    unfold taken
    omega
  have hplain : f.container.ciaTmd.hasEncryptedContent
      (if f.fromCdn then none else f.container.getHeader) = false := by
    rw [if_neg (Bool.eq_false_iff.mp hf.fromCdn), hf.container]
    exact h.hasEncryptedContent
  have hcount : f.container.ciaTmd.getContentCount = tmd.getContentCount := by
    rw [hf.container]
    rfl
  unfold prepareToImportContent
  simp only [post_bind, post_get, post_assignFile, post_ite, post_pure, hplain,
    Bool.false_eq_true, false_and, false_implies, not_false_eq_true, true_implies, true_and]
  constructor
  case written_eq => exact hf.written_eq
  case installState => rfl
  case container => exact hf.container
  case length => simp [hf.contentWritten, hcount]
  case contentWritten =>
    intro j hj
    rw [hnone, hf.contentWritten]
    simp [List.getD_eq_getElem?_getD, hcount, hj]
  case contentFiles =>
    intro j hj
    rw [hnone, List.take_zero]
    exact congrFun hf.contentFiles j
  case current =>
    intro j hj hsome
    rw [hnone] at hsome
    exact absurd hsome (Nat.lt_irrefl 0)

theorem writeTitleMetadata_post (h : WellFormed image tmd)
    (hf : Buffered (headerContainer image) .ticketLoaded
      (image.take ((headerContainer image).getContentOffset 0)) written f)
    (hoffset : offset ≤ (headerContainer image).getContentOffset 0) :
    (writeTitleMetadata host).Post f
      (fun _ g => Contents image tmd written (fun _ => offset) g)
      (fun _ _ => False) (fun _ => False) := by
  have hload : f.container.ciaTmd.load f.data f.container.getTitleMetadataOffset =
      .ok (.success, tmd) := by
    rw [hf.container, hf.data_eq]
    exact h.tmd_eq
  unfold writeTitleMetadata importTitleMetadata
  rw [post_bind, post_get, post_bind, post_bind, Exec.post_lookup, hload]
  constructor
  · rintro _ ⟨⟩
    rw [post_bind, post_assignFile, if_pos rfl, post_bind, post_assignFile,
      post_bind, post_get, post_bind, post_assignFile, post_bind]
    have hprepare : ∀ g : CIAFile, Buffered (imageContainer image tmd) .ticketLoaded
        (image.take ((headerContainer image).getContentOffset 0)) written g →
        (prepareToImportContent host).Post g
          (fun code g => code = none ∧ Contents image tmd written (fun _ => offset) g)
          (fun _ _ => False) (fun _ => False) :=
      fun g hg => prepareToImportContent_post h hg hoffset
    refine Exec.Post.mono (hprepare _ ?_) ?_ (fun _ _ hg => hg) (fun _ hg => hg)
    · exact {
        hf with
        container := by
          rw [hf.container]
          rfl }
    · rintro _ g ⟨rfl, hg⟩
      rw [post_pure, post_bind, post_assignFile]
      exact { hg with }
  · rintro _ ⟨⟩

/-! ## Chunks -/

/-- Where an installation stands when so much of the file was written. -/
inductive Stage (image : List UInt8) (tmd : TitleMetadata) (pos : Nat) (f : CIAFile) : Prop
  | started (hpos : pos < ciaHeaderSize)
      (h : Buffered {} .installStarted (image.take pos) pos f)
  | buffering (hpos : ciaHeaderSize ≤ pos) (hcontent : pos < (headerContainer image).getContentOffset 0)
      (h : Buffered (headerContainer image) .headerLoaded (image.take pos) pos f)
  | importing (hcontent : (headerContainer image).getContentOffset 0 ≤ pos)
      (h : Contents image tmd pos (fun _ => pos) f)

theorem writeBehindHeader_post (h : WellFormed image tmd) {k : Nat}
    (hf : Buffered (headerContainer image) .headerLoaded (image.take k) (offset + n) f)
    (hstart : offset ≤ k) (hend : offset + n ≤ image.length)
    (hk : k ≤ min (offset + n) ((headerContainer image).getContentOffset 0))
    (hheader : ciaHeaderSize ≤ offset + n)
    (hbefore : offset < (headerContainer image).getContentOffset 0) :
    (writeBehindHeader host offset ((image.drop offset).take n)).Post f
      (fun _ g => Stage image tmd (offset + n) g) (fun _ _ => False) (fun _ => False) := by
  unfold writeBehindHeader
  rw [post_bind]
  refine (writeSections_post hf hstart hend hk hbefore).mono (fun _ g hg => ?_)
    (fun _ _ hg => hg) (fun _ hg => hg)
  rw [post_bind, post_get, post_bind, post_when, hg.container, hg.written_eq,
    hg.installState]
  constructor
  · rintro ⟨hcontent, -⟩
    rw [min_eq_right hcontent] at hg
    rw [post_bind]
    refine (writeTicket_post h hg).mono (fun _ g₁ hg₁ => ?_) (fun _ _ hg => hg) (fun _ hg => hg)
    refine (writeTitleMetadata_post h hg₁ hbefore.le).mono (fun _ g₂ hg₂ => ?_)
      (fun _ _ hg => hg) (fun _ hg => hg)
    rw [post_bind, post_get, post_when]
    refine ⟨fun _ => ?_, fun hstate => absurd hg₂.installState hstate⟩
    refine (writeContentData_post h hend hg₂).mono (fun _ g₃ hg₃ => ?_) (fun _ _ hg => hg)
      (fun _ hg => hg)
    exact .importing hcontent hg₃
  · intro hmore
    have hcontent : offset + n < (headerContainer image).getContentOffset 0 := by
      by_contra hle
      exact hmore ⟨not_lt.mp hle, by decide⟩
    rw [min_eq_left hcontent.le] at hg
    rw [post_bind, post_get, post_when, hg.installState]
    exact ⟨fun hstate => absurd hstate (by decide), fun _ => .buffering hheader hcontent hg⟩

theorem writeBehindHeader_contents (h : WellFormed image tmd)
    (hf : Contents image tmd written (fun _ => offset) f) (hend : offset + n ≤ image.length)
    (hcontent : (headerContainer image).getContentOffset 0 ≤ offset) :
    (writeBehindHeader host offset ((image.drop offset).take n)).Post f
      (fun _ g => Contents image tmd written (fun _ => offset + n) g)
      (fun _ _ => False) (fun _ => False) := by
  unfold writeBehindHeader writeSections
  rw [post_bind, post_bind, post_get, post_when, hf.container,
    getContentOffset_imageContainer]
  refine ⟨fun hbefore => absurd hbefore (not_lt.mpr hcontent), fun _ => ?_⟩
  rw [post_bind, post_get, post_bind, post_when, hf.installState]
  refine ⟨fun hstate => absurd rfl hstate.2, fun _ => ?_⟩
  rw [post_bind, post_get, post_when, hf.installState]
  exact ⟨fun _ => writeContentData_post h hend hf, fun hstate => absurd rfl hstate⟩

/-- The chunk starts behind the first byte of the header and ends behind the header. -/
def Cuts (offset n : Nat) : Prop := 0 < offset ∧ offset < ciaHeaderSize ∧ ciaHeaderSize < offset + n

/-- The header is buffered, unless more is copied than there is room for. -/
theorem writeHeader_post (hend : offset + n ≤ image.length) (hpos : offset < ciaHeaderSize)
    (hf : Buffered {} .installStarted (image.take offset) (offset + n) f) :
    (writeHeader offset ((image.drop offset).take n)).Post f
      (fun _ g => ¬ Cuts offset n ∧
        if ciaHeaderSize ≤ offset + n then
          Buffered (headerContainer image) .headerLoaded (image.take ciaHeaderSize) (offset + n) g
        else Buffered {} .installStarted (image.take (offset + n)) (offset + n) g)
      (fun _ _ => False) (fun _ => Cuts offset n) := by
  have hlength : ((image.drop offset).take n).length = n := by
    rw [List.length_take, List.length_drop]
    omega
  unfold writeHeader
  rw [hlength, post_bind, post_assignFile, post_bind]
  by_cases hcut : Cuts offset n
  · have hloaded : f.data.length = offset := by
      rw [hf.data_eq, List.length_take]
      omega
    unfold Cuts at hcut
    have hroom : (resized f.data (min (offset + n) ciaHeaderSize) 0).length <
        offset + min n ciaHeaderSize := by
      rw [resized_of_le (by omega), List.length_append, List.length_replicate]
      omega
    unfold copyToData
    rw [post_bind, post_get, post_bind, post_assert]
    exact ⟨fun hfits => absurd hfits.1 (not_le.mpr hroom), fun _ => hcut⟩
  · have hsum : min (offset + n) ciaHeaderSize = offset + min n ciaHeaderSize := by
      unfold Cuts at hcut
      omega
    rw [hsum]
    refine (resized_copy_post hf (by omega) (by omega) ?_).mono (fun _ g hg => ?_)
      (fun _ _ hg => hg) (fun _ hg => hg.elim)
    · rw [List.drop_zero, List.take_take, min_eq_left (by omega)]
    · rw [← hsum] at hg
      rw [post_bind, post_get, post_when, hg.written_eq, post_assignFile]
      constructor
      · intro hheader
        rw [min_eq_right hheader] at hg
        rw [if_pos hheader]
        refine ⟨hcut, { hg with installState := rfl, container := ?_ }⟩
        have hdata : ¬ (image.take ciaHeaderSize).length < ciaHeaderSize := by
          rw [List.length_take]
          omega
        rw [hg.container, hg.data_eq, CIAContainer.loadHeader, if_neg hdata]
        rfl
      · intro hheader
        rw [min_eq_left (by omega)] at hg
        rw [if_neg hheader]
        exact ⟨hcut, hg⟩

/-- One chunk. -/
theorem write_post (h : WellFormed image tmd) (hend : offset + n ≤ image.length)
    (hf : Stage image tmd offset f) :
    (write host offset ((image.drop offset).take n)).Post f
      (fun m g => m = n ∧ ¬ Cuts offset n ∧ Stage image tmd (offset + n) g)
      (fun _ _ => False) (fun _ => Cuts offset n) := by
  have hlength : ((image.drop offset).take n).length = n := by
    rw [List.length_take, List.length_drop]
    omega
  have hheader := h.header_le
  unfold write
  rw [hlength, post_bind, post_assignFile, post_bind, post_get, post_bind,
    post_when]
  cases hf with
  | started hpos hf =>
      have hnow : Buffered {} .installStarted (image.take offset) (offset + n)
          { f with written := f.written + n } := { hf with written_eq := by rw [hf.written_eq] }
      refine ⟨fun _ => ?_, fun hstate => absurd hf.installState hstate⟩
      refine (writeHeader_post hend hpos hnow).mono ?_ (fun _ _ hg => hg) (fun _ hg => hg)
      rintro _ g ⟨hcut, hg⟩
      rw [post_bind, post_get, post_bind, post_when]
      split at hg
      next hloaded =>
        rw [hg.installState]
        refine ⟨fun _ => ?_, fun hstate => absurd (by decide) hstate⟩
        exact (writeBehindHeader_post h hg hpos.le hend (by omega) hloaded (by omega)).mono
          (fun _ _ hg' => ⟨rfl, hcut, hg'⟩) (fun _ _ hg' => hg') (fun _ hg' => hg'.elim)
      next hmore =>
        exact ⟨fun hstate => absurd hg.installState hstate,
          fun _ => ⟨rfl, hcut, .started (not_le.mp hmore) hg⟩⟩
  | buffering hpos hcontent hf =>
      have hcut : ¬ Cuts offset n := fun hcut => absurd hcut.2.1 (not_lt.mpr hpos)
      have hnow : Buffered (headerContainer image) .headerLoaded (image.take offset) (offset + n)
          { f with written := f.written + n } := { hf with written_eq := by rw [hf.written_eq] }
      have hstarted : f.installState ≠ .installStarted := by
        rw [hf.installState]
        decide
      rw [post_bind, post_get, post_bind, post_when]
      refine ⟨fun hstate => absurd hstate hstarted, fun _ => ⟨fun _ => ?_,
        fun hstate => absurd hstarted hstate⟩⟩
      exact (writeBehindHeader_post h hnow le_rfl hend (by omega) (by omega) hcontent).mono
        (fun _ _ hg => ⟨rfl, hcut, hg⟩) (fun _ _ hg => hg) (fun _ hg => hg.elim)
  | importing hcontent hf =>
      have hcut : ¬ Cuts offset n := fun hcut => absurd hcut.2.1 (by omega)
      have hnow : Contents image tmd (offset + n) (fun _ => offset)
          { f with written := f.written + n } := { hf with written_eq := by rw [hf.written_eq] }
      have hstarted : f.installState ≠ .installStarted := by
        rw [hf.installState]
        decide
      rw [post_bind, post_get, post_bind, post_when]
      refine ⟨fun hstate => absurd hstate hstarted, fun _ => ⟨fun _ => ?_,
        fun hstate => absurd hstarted hstate⟩⟩
      exact (writeBehindHeader_contents h hnow hend hcontent).mono
        (fun _ _ hg => ⟨rfl, hcut, .importing (by omega) hg⟩) (fun _ _ hg => hg)
        (fun _ hg => hg.elim)

theorem writeChunks_post (h : WellFormed image tmd) {front : List UInt8}
    {chunks : List (List UInt8)} (himage : image = front ++ chunks.flatten)
    (hf : Stage image tmd front.length f) :
    (writeChunks host front.length chunks).Post f
      (fun _ g => ¬ CutsHeader front.length chunks ∧ Stage image tmd image.length g)
      (fun _ _ => False) (fun _ => CutsHeader front.length chunks) := by
  induction chunks generalizing front f with
  | nil =>
      rw [List.flatten_nil, List.append_nil] at himage
      rw [himage] at hf ⊢
      exact ⟨id, hf⟩
  | cons buffer rest ih =>
      have hbuffer : buffer = (image.drop front.length).take buffer.length := by
        rw [himage, List.drop_left, List.flatten_cons, List.take_left]
      have hend : front.length + buffer.length ≤ image.length := by
        rw [himage, List.flatten_cons, List.length_append, List.length_append]
        omega
      have hwrite := @write_post host image tmd front.length buffer.length f h hend hf
      rw [← hbuffer] at hwrite
      rw [writeChunks, post_bind]
      refine hwrite.mono ?_ (fun _ _ hg => hg) (fun _ hcut => .inl hcut)
      rintro _ g ⟨rfl, hcut, hg⟩
      rw [← List.length_append] at hg ⊢
      refine (ih (by rw [himage, List.flatten_cons, List.append_assoc]) hg).mono ?_
        (fun _ _ hg => hg) (fun _ hcuts => ?_)
      · rintro _ g' ⟨hrest, hg'⟩
        rw [List.length_append] at hrest
        exact ⟨fun hcuts => hcuts.elim hcut hrest, hg'⟩
      · rw [List.length_append] at hcuts
        exact .inr hcuts

theorem Stage.finished (hf : Stage image tmd image.length f) (h : WellFormed image tmd) :
    (∀ i < tmd.getContentCount, f.contentFiles i = contentBytes image tmd i) ∧
      f.isComplete = true := by
  have hheader := h.header_le
  have hcontents := getContentOffset_mono (imageContainer image tmd)
    (Nat.zero_le tmd.getContentCount)
  rw [getContentOffset_imageContainer] at hcontents
  have hlength := h.length
  cases hf with
  | started hpos hf => omega
  | buffering hpos hcontent hf => omega
  | importing hcontent hf =>
      have hall : ∀ j < tmd.getContentCount, taken image tmd j image.length =
          (imageContainer image tmd).getContentSize j := by
        intro j hj
        have hend := contentEnd_le (imageContainer image tmd) hj
        unfold taken
        omega
      constructor
      · intro i hi
        rw [hf.contentFiles i hi, hall i hi, contentBytes, List.take_take, min_self]
      · have hcount : f.contentWritten.length = f.container.ciaTmd.getContentCount := by
          rw [hf.length, hf.container]
          rfl
        simp only [CIAFile.isComplete, hf.installState, hcount, le_refl, decide_true,
          Bool.true_and, List.all_eq_true, List.mem_range, decide_eq_true_eq]
        intro i hi
        rw [← hcount, hf.length] at hi
        rw [hf.contentWritten i hi, hall i hi, hf.container]

theorem stage_start : Stage image tmd 0 {} :=
  .started (by decide) ⟨rfl, rfl, rfl, rfl, rfl, rfl, rfl⟩

theorem Installs.not_cutsHeader {chunks : List (List UInt8)} (h : WellFormed image tmd)
    (hchunks : chunks.flatten = image) (hinstalls : Installs host image tmd chunks) :
    ¬ CutsHeader 0 chunks := by
  obtain ⟨f, hvalue, -⟩ := hinstalls
  have hrun := @writeChunks_post host image tmd {} h [] chunks hchunks.symm stage_start
  exact (hrun.value hvalue).1

/-- Consecutive chunks of a well-formed file install it, unless one of them cuts the header. -/
theorem installs_iff (host : CIAHost) (h : WellFormed image tmd) {chunks : List (List UInt8)}
    (hchunks : chunks.flatten = image) :
    Installs host image tmd chunks ↔ ¬ CutsHeader 0 chunks := by
  constructor
  · exact fun hinstalls => hinstalls.not_cutsHeader h hchunks
  · intro hcut
    have hrun := @writeChunks_post host image tmd {} h [] chunks hchunks.symm stage_start
    have hreturns : (writeChunks host 0 chunks).Post {}
        (fun _ f => Stage image tmd image.length f) (fun _ _ => False) (fun _ => False) :=
      hrun.mono (fun _ _ hf => hf.2) (fun _ _ hf => hf) (fun _ hcuts => hcut hcuts)
    obtain ⟨_, f, hvalue, hf⟩ := hreturns.exists_value
    exact ⟨f, hvalue, hf.finished h⟩

end Image

/-! ### A file in one chunk, and cut in two -/

/-- A file with a single content of sixteen bytes. -/
def exampleImage : List UInt8 :=
  [toBytes 4 0x2020, toBytes 8 0, toBytes 4 0x1AC, toBytes 4 0xA34, List.replicate 12 0, [0x80],
    List.replicate 0x201F 0, [0, 1, 0, 2], List.replicate 0x1BC 0, [0, 1, 0, 2],
    List.replicate 0xDA 0, [0, 1], List.replicate 0x933 0, [16], List.replicate 0x2C 0,
    List.replicate 16 7].flatten

def exampleTmd : TitleMetadata := { titleId := 0, chunks := [⟨0, 0, 0, 16⟩] }

def exampleCIAHost : CIAHost where
  decryptionAuthorized := false
  hasTitleKey := false
  processData := fun _ _ bytes => bytes
  cannotDecrypt := fun _ => false

theorem ticket_load_append (front back : List UInt8) (offset : Nat) :
    Ticket.load (front ++ back) (front.length + offset) = Ticket.load back offset := by
  simp [Ticket.load, bigEndianAt_append, Nat.add_assoc, Nat.add_sub_add_left]

theorem tmd_load_append (front back : List UInt8) (offset : Nat) (tmd : TitleMetadata) :
    tmd.load (front ++ back) (front.length + offset) = tmd.load back offset := by
  simp [TitleMetadata.load, ContentChunk.read, bigEndianAt_append, Nat.add_assoc,
    Nat.add_sub_add_left]

def exampleHeader : List UInt8 :=
  [toBytes 4 0x2020, toBytes 8 0, toBytes 4 0x1AC, toBytes 4 0xA34, List.replicate 12 0,
    [0x80]].flatten ++ List.replicate 0x201F 0

/-- The ticket and the title metadata. -/
def exampleSections : List UInt8 :=
  [[0, 1, 0, 2], List.replicate 0x1BC 0, [0, 1, 0, 2], List.replicate 0xDA 0, [0, 1],
    List.replicate 0x933 0, [16], List.replicate 0x2C 0].flatten

theorem exampleImage_eq :
    exampleImage = exampleHeader ++ exampleSections ++ List.replicate 16 7 := by
  simp only [exampleImage, exampleHeader, exampleSections, List.flatten_cons, List.flatten_nil,
    List.append_assoc, List.append_nil]

theorem length_exampleHeader : exampleHeader.length = 0x2040 := by
  rw [exampleHeader, List.length_append, List.length_replicate]
  decide

theorem length_exampleSections : exampleSections.length = 0xC00 := by decide +kernel

theorem length_exampleImage : exampleImage.length = 0x2C50 := by
  rw [exampleImage_eq, List.length_append, List.length_append, length_exampleHeader,
    length_exampleSections, List.length_replicate]

theorem take_exampleImage : exampleImage.take ((headerContainer exampleImage).getContentOffset 0) =
    exampleHeader ++ exampleSections := by
  have hoffset : (headerContainer exampleImage).getContentOffset 0 = 0x2C40 := by decide
  rw [hoffset, exampleImage_eq]
  refine List.take_left' ?_
  rw [List.length_append, length_exampleHeader, length_exampleSections]

theorem wellFormed_exampleImage : WellFormed exampleImage exampleTmd where
  headerSize := by decide
  ticket := by
    have hoffset : (headerContainer exampleImage).getTicketOffset = 0x2040 + 0 := by decide
    rw [take_exampleImage, hoffset, ← length_exampleHeader, ticket_load_append]
    decide +kernel
  tmd_eq := by
    have hoffset : (headerContainer exampleImage).getTitleMetadataOffset = 0x2040 + 0x1C0 := by
      decide
    rw [take_exampleImage, hoffset, ← length_exampleHeader, tmd_load_append]
    decide +kernel
  index := by decide
  plain := by decide
  notEncrypted := by
    intro i hi h
    obtain rfl : i = 0 := Nat.lt_one_iff.mp hi
    have hsize : (imageContainer exampleImage exampleTmd).getContentSize 0 = 16 := by decide
    have hle := h.1.trans (List.length_take_le ..)
    omega
  length := by
    rw [length_exampleImage]
    decide

theorem installs_iff_exampleImage : Installs exampleCIAHost exampleImage exampleTmd [exampleImage] :=
  (installs_iff exampleCIAHost wellFormed_exampleImage (by simp)).mpr (by simp [CutsHeader])

/-- The first chunk is one byte, and the second one is the rest of the file. -/
theorem cut_header_not_installed :
    ∃ chunks, chunks.flatten = exampleImage ∧ (∀ buffer ∈ chunks, buffer ≠ []) ∧
      WellFormed exampleImage exampleTmd ∧
      ¬ Installs exampleCIAHost exampleImage exampleTmd chunks := by
  have hchunks : [exampleImage.take 1, exampleImage.drop 1].flatten = exampleImage := by
    simp only [List.flatten_cons, List.flatten_nil, List.append_nil, List.take_append_drop]
  refine ⟨_, hchunks, ?_, wellFormed_exampleImage, fun hinstalls => ?_⟩
  · intro buffer hbuffer hnil
    have hpos := congrArg List.length hnil
    rcases List.mem_pair.mp hbuffer with rfl | rfl <;> simp [length_exampleImage] at hpos
  · apply hinstalls.not_cutsHeader wellFormed_exampleImage hchunks
    simp [CutsHeader, length_exampleImage, ciaHeaderSize]

end Cytrus.Am
