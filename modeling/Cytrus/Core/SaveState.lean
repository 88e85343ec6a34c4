import Mathlib
import Cytrus.Support.FrameStream
import Cytrus.Support.PackedTable

/-!
# Loading save states

A save state is a header of 256 bytes and a frame of zstd. It is loaded from the
file of a slot, which is decompressed in chunks, or from a buffer, which is
decompressed at once. Both then deserialize into the system.

## Main results

* `agrees_iff`: when both loaders do the same
-/

namespace Cytrus.Core.SaveState

open Support Support.FrameStream

/-! ## Headers -/

/-- `CSTHeader`, without what is reserved. -/
structure CSTHeader where
  filetype : List UInt8
  programId : UInt64
  revision : List UInt8
  time : UInt64
  buildName : List UInt8
  zero : UInt32

def sizeofCSTHeader : Nat := 256

def headerMagicBytes : List UInt8 := [0x43, 0x53, 0x54, 0x1B]

/-- The header at the front of bytes. -/
def CSTHeader.ofBytes (bytes : List UInt8) : CSTHeader where
  filetype := bytes.take 4
  programId := UInt64.ofNat (Support.ofBytes ((bytes.drop 4).take 8))
  revision := (bytes.drop 12).take 20
  time := UInt64.ofNat (Support.ofBytes ((bytes.drop 32).take 8))
  buildName := (bytes.drop 40).take 20
  zero := UInt32.ofNat (Support.ofBytes ((bytes.drop 60).take 4))

/-- `{:0nx}`. -/
def hex (digits n : Nat) : String := String.ofList ((Nat.toDigits 16 n).leftpad digits '0')

/-- `{:0nX}`. -/
def hexUpper (digits n : Nat) : String := (hex digits n).toUpper

def CSTHeader.revisionText (header : CSTHeader) : String :=
  String.join (header.revision.map fun b => hex 2 b.toNat)

/-- The build name of a header, which ends before the first zero. -/
def CSTHeader.buildNameText (header : CSTHeader) : String :=
  if header.zero = 0 then
    String.ofList ((header.buildName.takeWhile (· ≠ 0)).map fun b => Char.ofNat b.toNat)
  else ""

inductive ValidationStatus
  | OK | RevisionDismatch
  deriving DecidableEq

/-- `SaveStateInfo`, whose status is not set before it is known. -/
structure SaveStateInfo where
  slot : UInt32
  time : UInt64 := 0
  status : Option ValidationStatus := none
  buildName : String := ""

/-- The build, with the names of others. -/
structure Build where
  scmRev : String
  hashToVersion : String → Option String

/-- `ValidateSaveState`, with the reason of a rejection. -/
def validateSaveState (build : Build) (header : CSTHeader) (info : SaveStateInfo) (programId : UInt64) :
    Except String Unit × SaveStateInfo :=
  if header.filetype ≠ headerMagicBytes then
    (.error "Not a save state file (bad header magic)", info)
  else
    let info := { info with time := header.time }
    if header.programId ≠ programId then
      (.error ("Save state is for title " ++ hexUpper 16 header.programId.toNat ++ ", but " ++
        hexUpper 16 programId.toNat ++ " is running"), info)
    else if header.revisionText = build.scmRev then (.ok (), { info with status := some .OK })
    else
      let buildName :=
        if header.buildNameText ≠ "" then header.buildNameText
        else (build.hashToVersion header.revisionText).getD info.buildName
      (.error ("Save state was made by a different build (state: " ++ header.revisionText ++ ", this build: " ++
        build.scmRev ++ ")"), { info with buildName, status := some .RevisionDismatch })

/-! ## What is not part of the program -/

/-- What `ZSTD_getFrameContentSize` tells. -/
inductive ContentSize
  | unknown
  | error
  | known (size : Nat)
  deriving DecidableEq

/-- The functions of zstd. -/
structure Zstd where
  frame : Frames UInt8 UInt8
  /-- `ZSTD_decompressStream`. -/
  stream : Decoder UInt8 UInt8
  /-- `ZSTD_DStreamInSize`. -/
  inSize : Nat
  /-- `ZSTD_getFrameContentSize`. -/
  getFrameContentSize : List UInt8 → ContentSize
  /-- `ZSTD_decompress` into so many bytes. -/
  decompress : Nat → List UInt8 → Option (List UInt8)

/-- `ZSTD_error_maxCode`; greater values of `size_t` than this one below its end are errors. -/
def zstdErrorMaxCode : Nat := 120

/-- What zstd documents. -/
structure Zstd.Documented (z : Zstd) : Prop where
  inSize_pos : 0 < z.inSize
  decodes : z.stream.Decodes z.frame
  contentSize : ∀ {bytes content n}, z.frame bytes = some (content, n) →
    z.getFrameContentSize bytes = .known content.length ∨ z.getFrameContentSize bytes = .unknown
  /-- Contents fit into memory. -/
  length_lt : ∀ {bytes content n}, z.frame bytes = some (content, n) → content.length < 2 ^ 63
  /-- All frames are decompressed, and nothing else may be there. -/
  decompress : ∀ capacity bytes, z.decompress capacity bytes =
    (contents z.frame bytes).filter fun content => content.length ≤ capacity

/-- Archives that are read into a state. -/
structure Archive (σ : Type) where
  /-- Whether the constructor finds the header of an archive. -/
  opens : List UInt8 → Bool
  /-- `ia & *this`, and whether it does not throw. -/
  deserialize : List UInt8 → σ → σ × Bool

/-! ## Loaders -/

/-- What is thrown. -/
inductive Error
  | runtime (message : String)
  | archive
  | deserialize
  deriving DecidableEq

/-- `System`, as far as loading looks at it. -/
structure System (σ : Type) where
  /-- `SupportsSaveStates` of the loader, if there is one. -/
  appLoader : Option Bool
  isConnected : Bool
  titleId : UInt64
  movieId : UInt64
  state : σ

/-- The system behind a call, what the call returns, and the bytes that it began to deserialize. -/
structure Outcome (σ α : Type) where
  system : System σ
  result : Except Error α
  started : Option (List UInt8) := none

section Loaders

variable {σ : Type} (z : Zstd) (archive : Archive σ) (build : Build)

/-- Deserialize bytes into the system. -/
def deserialize {α : Type} (s : System σ) (bytes : List UInt8) (value : α) : Outcome σ α :=
  if !archive.opens bytes then { system := s, result := .error .archive }
  else
    let r := archive.deserialize bytes s.state
    { system := { s with state := r.1 }
      result := if r.2 then .ok value else .error .deserialize
      started := some bytes }

/-- `GetSaveStatePath`, behind the directory of the states. -/
def getSaveStatePath (programId movieId : UInt64) (slot : UInt32) : String :=
  let number := if slot < 10 then "0" ++ toString slot.toNat else toString slot.toNat
  if movieId ≠ 0 then hexUpper 16 programId.toNat ++ ".movie" ++ hexUpper 16 movieId.toNat ++ "." ++ number ++ ".cst"
  else hexUpper 16 programId.toNat ++ "." ++ number ++ ".cst"

/-- `LoadState`, with the files of the directory of the states. -/
def loadState (files : String → Option (List UInt8)) (slot : UInt32) (s : System σ) : Outcome σ Unit :=
  let throws (message : String) : Outcome σ Unit := { system := s, result := .error (.runtime message) }
  if s.appLoader = some false then throws "The current app loader doesn't support save states"
  else if s.isConnected then throws "Unable to load while connected to multiplayer"
  else
    let path := getSaveStatePath s.titleId s.movieId slot
    let file := (files path).getD []
    if file.length ≤ sizeofCSTHeader then throws ("Save state file is missing or truncated: " ++ path)
    else
      match (validateSaveState build (.ofBytes file) { slot } s.titleId).1 with
      | .error reason => throws (if reason = "" then "Invalid savestate" else reason)
      | .ok () =>
          match z.stream.feedAll z.inSize z.stream.created (file.drop sizeofCSTHeader) [] with
          | none => throws "ZSTD_decompressStream error: "
          | some (_, false) => throws ("Save state payload is truncated: " ++ path)
          | some (decompressed, true) => deserialize archive s decompressed ()

/-- `DecompressDataZSTD`, which fails with no bytes. -/
def decompressDataZSTD (compressed : List UInt8) : List UInt8 :=
  match z.getFrameContentSize compressed with
  | .unknown => []
  | .error => []
  | .known size =>
      if 2 ^ 64 - zstdErrorMaxCode < size then []
      else
        match z.decompress size compressed with
        | none => []
        | some decompressed => if size ≠ decompressed.length then [] else decompressed

def loadStateBuffer (buffer : List UInt8) (s : System σ) : Outcome σ Bool :=
  let header := CSTHeader.ofBytes buffer
  if buffer.length < sizeofCSTHeader then { system := s, result := .ok false }
  else if header.filetype ≠ headerMagicBytes then { system := s, result := .ok false }
  else if header.programId ≠ s.titleId then { system := s, result := .ok false }
  else if header.revisionText ≠ build.scmRev then { system := s, result := .ok false }
  else deserialize archive s (decompressDataZSTD z (buffer.drop sizeofCSTHeader)) true

end Loaders

/-! ## Agreement -/

/-- The header is one of this title and this build. -/
structure Valid (build : Build) (titleId : UInt64) (bytes : List UInt8) : Prop where
  filetype : (CSTHeader.ofBytes bytes).filetype = headerMagicBytes
  programId : (CSTHeader.ofBytes bytes).programId = titleId
  revision : (CSTHeader.ofBytes bytes).revisionText = build.scmRev

/-- The payload decompresses completely. -/
def Decompresses (z : Zstd) (bytes content : List UInt8) : Prop :=
  ∃ n, z.frame (bytes.drop sizeofCSTHeader) = some (content, n)

/-- Deserializing only starts with bytes that were validated, and otherwise the call fails without
changing the system. -/
structure Guarded {σ α : Type} (z : Zstd) (build : Build) (s : System σ) (bytes : List UInt8)
    (outcome : Outcome σ α) (failed : Prop) : Prop where
  valid : ∀ content, outcome.started = some content →
    Valid build s.titleId bytes ∧ Decompresses z bytes content
  failed : outcome.started = none → failed ∧ outcome.system = s

/-- Both loaders are guarded, and start with the same bytes. -/
structure Agrees {σ : Type} (z : Zstd) (build : Build) (s : System σ) (bytes : List UInt8)
    (load : Outcome σ Unit) (buffer : Outcome σ Bool) : Prop where
  loadGuarded : Guarded z build s bytes load (∃ error, load.result = .error error)
  bufferGuarded : Guarded z build s bytes buffer (buffer.result ≠ .ok true)
  started : load.started = buffer.started

/-- A frame that is followed by frames without content at most, and that tells the size of its content. -/
def Plain (z : Zstd) (payload : List UInt8) (n : Nat) : Prop :=
  z.getFrameContentSize payload ≠ .unknown ∧ contents z.frame (payload.drop n) = some []

section Agreement

variable {σ : Type} {z : Zstd} {archive : Archive σ} {build : Build} {files : String → Option (List UInt8)}
  {slot : UInt32} {s : System σ} {bytes content payload : List UInt8} {n : Nat}

theorem validateSaveState_eq (header : CSTHeader) (info : SaveStateInfo) (programId : UInt64) :
    (validateSaveState build header info programId).1 = .ok () ↔
      header.filetype = headerMagicBytes ∧ header.programId = programId ∧ header.revisionText = build.scmRev := by
  rw [validateSaveState]
  split_ifs with hfiletype hprogram hrevision <;> simp_all

theorem deserialize_of_not_opens {α : Type} (h : archive.opens content = false) (value : α) :
    deserialize archive s content value = { system := s, result := .error .archive } := by
  rw [deserialize, h]
  rfl

theorem started_deserialize {α : Type} (h : archive.opens content = true) (value : α) :
    (deserialize archive s content value).started = some content := by
  rw [deserialize, h]
  rfl

theorem guarded_failure {α : Type} {result : Except Error α} {failed : Prop} (hfailed : failed) :
    Guarded z build s bytes { system := s, result } failed :=
  ⟨fun _ hstarted => absurd hstarted.symm (Option.some_ne_none _), fun _ => ⟨hfailed, rfl⟩⟩

theorem guarded_deserialize {α : Type} {value : α} {failed : Prop} (hvalid : Valid build s.titleId bytes)
    (hcontent : Decompresses z bytes content) (h : archive.opens content = true) :
    Guarded z build s bytes (deserialize archive s content value) failed := by
  have hstarted := @started_deserialize σ archive s content α h value
  constructor
  · intro content' hcontent'
    obtain rfl := Option.some.inj (hstarted.symm.trans hcontent')
    exact ⟨hvalid, hcontent⟩
  · intro hnone
    exact absurd (hstarted.symm.trans hnone) (Option.some_ne_none _)

theorem decompressDataZSTD_of_frame (hz : z.Documented) (hframe : z.frame payload = some (content, n)) :
    (Plain z payload n → decompressDataZSTD z payload = content) ∧
      (¬Plain z payload n → decompressDataZSTD z payload = []) := by
  have hcontents := hz.decodes.contents_eq hframe
  have hlt := hz.length_lt hframe
  rw [decompressDataZSTD]
  rcases hz.contentSize hframe with hknown | hunknown
  · have hsize : ¬2 ^ 64 - zstdErrorMaxCode < content.length := by
      rw [zstdErrorMaxCode]
      omega
    have hplain : Plain z payload n ↔ contents z.frame (payload.drop n) = some [] := by
      rw [Plain, hknown]
      exact and_iff_right (by simp)
    rw [hknown, hplain]
    simp only [if_neg hsize, hz.decompress, hcontents]
    cases hrest : contents z.frame (payload.drop n) with
    | none => simp
    | some rest =>
        rw [Option.map_some]
        constructor
        · intro hnil
          obtain rfl := Option.some.inj hnil
          rw [List.append_nil, Option.filter_some, if_pos (by simp)]
          simp
        · intro hrest
          have hpos : 0 < rest.length := List.length_pos_iff.mpr fun hnil => hrest (congrArg some hnil)
          have hlong : ¬(content ++ rest).length ≤ content.length := by
            rw [List.length_append]
            omega
          rw [Option.filter_some, if_neg (by rw [decide_eq_true_iff]; exact hlong)]
  · rw [hunknown]
    exact ⟨fun hplain => absurd hunknown hplain.1, fun _ => rfl⟩

theorem decompressDataZSTD_of_no_frame (hz : z.Documented) (hframe : z.frame payload = none) :
    decompressDataZSTD z payload = [] := by
  have hdecompress (size : Nat) : z.decompress size payload = none ∨ z.decompress size payload = some [] := by
    rw [hz.decompress]
    by_cases hnil : payload = []
    · rw [hnil, contents, dif_pos rfl]
      exact .inr (by simp)
    · rw [Decoder.contents_eq_none hnil hframe]
      exact .inl rfl
  rw [decompressDataZSTD]
  cases z.getFrameContentSize payload with
  | unknown | error => rfl
  | known size =>
      dsimp only
      split
      · rfl
      · rcases hdecompress size with hnone | hnil
        · rw [hnone]
        · rw [hnil]
          dsimp only
          split <;> rfl

theorem loadState_of_frame (hz : z.Documented) (hloader : s.appLoader ≠ some false) (hconnected : s.isConnected = false)
    (hfile : files (getSaveStatePath s.titleId s.movieId slot) = some bytes) (hvalid : Valid build s.titleId bytes)
    (hframe : z.frame (bytes.drop sizeofCSTHeader) = some (content, n)) :
    loadState z archive build files slot s = deserialize archive s content () := by
  obtain ⟨hpos, hle⟩ := hz.decodes.length_le hframe
  rw [List.length_drop] at hle
  have hvalidate := (@validateSaveState_eq build (.ofBytes bytes) { slot } s.titleId).mpr
    ⟨hvalid.filetype, hvalid.programId, hvalid.revision⟩
  have hfeed := (hz.decodes.feedAll_eq_some_iff hz.inSize_pos).mpr ⟨n, hframe⟩
  rw [loadState]
  simp only [if_neg hloader, hconnected, Bool.false_eq_true, if_false, hfile, Option.getD_some]
  rw [if_neg (by omega), hvalidate]
  dsimp only
  rw [hfeed]

theorem loadState_of_no_frame (hz : z.Documented) (hloader : s.appLoader ≠ some false)
    (hconnected : s.isConnected = false) (hfile : files (getSaveStatePath s.titleId s.movieId slot) = some bytes)
    (hnot : Valid build s.titleId bytes → z.frame (bytes.drop sizeofCSTHeader) = none) :
    ∃ error, loadState z archive build files slot s = { system := s, result := .error error } := by
  rw [loadState]
  simp only [if_neg hloader, hconnected, Bool.false_eq_true, if_false, hfile, Option.getD_some]
  split
  · exact ⟨_, rfl⟩
  · split
    · exact ⟨_, rfl⟩
    · next hvalidate =>
      obtain ⟨hfiletype, hprogram, hrevision⟩ := (validateSaveState_eq ..).mp hvalidate
      have hnone := hnot ⟨hfiletype, hprogram, hrevision⟩
      split
      · exact ⟨_, rfl⟩
      · exact ⟨_, rfl⟩
      · next hfeed =>
        obtain ⟨n, hframe⟩ := (hz.decodes.feedAll_eq_some_iff hz.inSize_pos).mp hfeed
        exact absurd (hframe.symm.trans hnone) (Option.some_ne_none _)

theorem loadStateBuffer_of_valid (hvalid : Valid build s.titleId bytes) (hlength : sizeofCSTHeader ≤ bytes.length) :
    loadStateBuffer z archive build bytes s =
      deserialize archive s (decompressDataZSTD z (bytes.drop sizeofCSTHeader)) true := by
  rw [loadStateBuffer]
  simp only [if_neg (not_lt.mpr hlength), hvalid.filetype, hvalid.programId, hvalid.revision, ne_eq,
    not_true_eq_false, if_false]

theorem loadStateBuffer_of_no_frame (hz : z.Documented) (hempty : archive.opens [] = false)
    (hnot : Valid build s.titleId bytes → z.frame (bytes.drop sizeofCSTHeader) = none) :
    ∃ result, loadStateBuffer z archive build bytes s = { system := s, result } ∧ result ≠ .ok true := by
  by_cases hvalid : Valid build s.titleId bytes ∧ sizeofCSTHeader ≤ bytes.length
  · rw [loadStateBuffer_of_valid hvalid.1 hvalid.2, decompressDataZSTD_of_no_frame hz (hnot hvalid.1), deserialize,
      hempty]
    exact ⟨_, rfl, by simp⟩
  · rw [loadStateBuffer]
    split_ifs with hlength hfiletype hprogram hrevision
    · exact ⟨_, rfl, by simp⟩
    · exact ⟨_, rfl, by simp⟩
    · exact ⟨_, rfl, by simp⟩
    · exact ⟨_, rfl, by simp⟩
    · exact absurd ⟨⟨not_not.mp hfiletype, not_not.mp hprogram, not_not.mp hrevision⟩, not_lt.mp hlength⟩ hvalid

/-- Both loaders do the same if and only if a frame with an archive behind a valid header is plain. -/
theorem agrees_iff (hz : z.Documented) (hempty : archive.opens [] = false) (hloader : s.appLoader ≠ some false)
    (hconnected : s.isConnected = false) (hfile : files (getSaveStatePath s.titleId s.movieId slot) = some bytes) :
    Agrees z build s bytes (loadState z archive build files slot s) (loadStateBuffer z archive build bytes s) ↔
      (Valid build s.titleId bytes → ∀ content n, z.frame (bytes.drop sizeofCSTHeader) = some (content, n) →
        archive.opens content = true → Plain z (bytes.drop sizeofCSTHeader) n) := by
  by_cases hnot : Valid build s.titleId bytes → z.frame (bytes.drop sizeofCSTHeader) = none
  · obtain ⟨error, hload⟩ := @loadState_of_no_frame σ z archive build files slot s bytes hz hloader hconnected hfile hnot
    obtain ⟨result, hbuffer, hresult⟩ := loadStateBuffer_of_no_frame hz hempty hnot
    rw [hload, hbuffer]
    refine ⟨fun _ hvalid content n hframe _ => ?_,
      fun _ => ⟨guarded_failure ⟨error, rfl⟩, guarded_failure hresult, rfl⟩⟩
    exact absurd (hframe.symm.trans (hnot hvalid)) (Option.some_ne_none _)
  · obtain ⟨hvalid, hsome⟩ := Classical.not_imp.mp hnot
    obtain ⟨⟨content, n⟩, hframe⟩ := Option.ne_none_iff_exists'.mp hsome
    have hlength : sizeofCSTHeader ≤ bytes.length := by
      obtain ⟨hpos, hle⟩ := hz.decodes.length_le hframe
      rw [List.length_drop] at hle
      omega
    obtain ⟨hplain, hmixed⟩ := decompressDataZSTD_of_frame hz hframe
    rw [loadState_of_frame hz hloader hconnected hfile hvalid hframe, loadStateBuffer_of_valid hvalid hlength]
    rcases Bool.eq_false_or_eq_true (archive.opens content) with hopens | hcloses
    · by_cases h : Plain z (bytes.drop sizeofCSTHeader) n
      · rw [hplain h]
        refine ⟨fun _ _ content' n' hframe' _ => ?_, fun _ => ⟨guarded_deserialize hvalid ⟨n, hframe⟩ hopens,
          guarded_deserialize hvalid ⟨n, hframe⟩ hopens,
          (started_deserialize hopens _).trans (started_deserialize hopens _).symm⟩⟩
        obtain rfl := (Prod.mk.inj (Option.some.inj (hframe.symm.trans hframe'))).2
        exact h
      · rw [hmixed h, deserialize_of_not_opens hempty]
        constructor
        · intro hagrees
          exact absurd ((started_deserialize hopens _).symm.trans hagrees.started) (Option.some_ne_none _)
        · intro hcondition
          exact absurd (hcondition hvalid content n hframe hopens) h
    · have hcloses' : archive.opens (decompressDataZSTD z (bytes.drop sizeofCSTHeader)) = false := by
        by_cases h : Plain z (bytes.drop sizeofCSTHeader) n
        · rwa [hplain h]
        · rwa [hmixed h]
      rw [deserialize_of_not_opens hcloses, deserialize_of_not_opens hcloses']
      refine ⟨fun _ _ content' n' hframe' hopens => ?_,
        fun _ => ⟨guarded_failure ⟨_, rfl⟩, guarded_failure (by simp), rfl⟩⟩
      obtain rfl := (Prod.mk.inj (Option.some.inj (hframe.symm.trans hframe'))).1
      exact absurd (hopens.symm.trans hcloses) (by decide)

end Agreement

/-! ## Frames of one raw block -/

/-- The header of a frame whose content is one raw block. -/
def rawHeader (size : Nat) : List UInt8 :=
  [0x28, 0xB5, 0x2F, 0xFD, 0x20, UInt8.ofNat size] ++ toBytes 3 (8 * size + 1)

/-- Frames of one raw block of less than 256 bytes. -/
def rawFrame (bytes : List UInt8) : Option (List UInt8 × Nat) :=
  let size := ((bytes.take 9).getD 5 0).toNat
  if bytes.take 9 = rawHeader size ∧ 9 + size ≤ bytes.length then some ((bytes.drop 9).take size, 9 + size)
  else none

/-- zstd, of which only such frames are known. -/
def rawZstd : Zstd where
  frame := rawFrame
  stream := .ofFrames rawFrame
  inSize := 0x20003
  getFrameContentSize bytes :=
    match rawFrame bytes with
    | some (content, _) => .known content.length
    | none => .error
  decompress capacity bytes := (contents rawFrame bytes).filter fun content => content.length ≤ capacity

theorem rawFrame_eq_some {bytes content : List UInt8} {n : Nat} (h : rawFrame bytes = some (content, n)) :
    ∃ size, size = ((bytes.take 9).getD 5 0).toNat ∧ bytes.take 9 = rawHeader size ∧ 9 + size ≤ bytes.length ∧
      content = (bytes.drop 9).take size ∧ n = 9 + size := by
  rw [rawFrame] at h
  split at h
  · next hraw =>
    obtain ⟨rfl, rfl⟩ := Prod.mk.inj (Option.some.inj h)
    exact ⟨_, rfl, hraw.1, hraw.2, rfl, rfl⟩
  · exact absurd h.symm (Option.some_ne_none _)

theorem rawFrame_of_take {bytes bytes' : List UInt8} {size : Nat} (hsize : size = ((bytes.take 9).getD 5 0).toNat)
    (hheader : bytes.take 9 = rawHeader size) (htake : bytes'.take (9 + size) = bytes.take (9 + size))
    (hle : 9 + size ≤ bytes'.length) : rawFrame bytes' = some ((bytes.drop 9).take size, 9 + size) := by
  have hfront : bytes'.take 9 = bytes.take 9 := by
    have hboth := congrArg (List.take 9) htake
    rwa [List.take_take, List.take_take, Nat.min_eq_left (Nat.le_add_right _ _)] at hboth
  have hcontent : (bytes'.drop 9).take size = (bytes.drop 9).take size := by
    rw [List.take_drop, List.take_drop, htake]
  rw [rawFrame, hfront, ← hsize, if_pos ⟨hheader, hle⟩, hcontent]

theorem documented_rawZstd : rawZstd.Documented where
  inSize_pos := by decide
  decodes := by
    refine Decoder.decodes_ofFrames (fun h => ?_) (fun h => ?_) (fun rest h => ?_)
    · obtain ⟨size, -, -, hle, -, rfl⟩ := rawFrame_eq_some h
      exact ⟨by omega, hle⟩
    · obtain ⟨size, hsize, hheader, hle, rfl, rfl⟩ := rawFrame_eq_some h
      exact rawFrame_of_take hsize hheader (by rw [List.take_take, Nat.min_self]) (List.length_take_of_le hle).ge
    · obtain ⟨size, hsize, hheader, hle, rfl, rfl⟩ := rawFrame_eq_some h
      exact rawFrame_of_take hsize hheader (List.take_append_of_le_length hle)
        (hle.trans (List.length_append ▸ Nat.le_add_right _ _))
  contentSize h := .inl (by rw [rawZstd]; dsimp only; rw [show rawFrame _ = _ from h])
  length_lt h := by
    obtain ⟨size, hsize, -, -, rfl, rfl⟩ := rawFrame_eq_some h
    have hlt : size < 256 := hsize ▸ UInt8.toNat_lt _
    rw [List.length_take]
    omega
  decompress _ _ := rfl

/-- The signature of a binary archive, behind its length. -/
def archiveSignature : List UInt8 := toBytes 8 22 ++ "serialization::archive".toUTF8.toList

/-- Archives that are copied into the state. -/
def copyArchive : Archive (List UInt8) where
  opens bytes := archiveSignature.isPrefixOf bytes
  deserialize bytes _ := (bytes, true)

def zeroBuild : Build where
  scmRev := "0000000000000000000000000000000000000000"
  hashToVersion _ := none

def idleSystem : System (List UInt8) where
  appLoader := some true
  isConnected := false
  titleId := 0
  movieId := 0
  state := []

/-- A save state of a signature. -/
def signatureState : List UInt8 :=
  headerMagicBytes ++ List.replicate 252 0 ++ rawHeader archiveSignature.length ++ archiveSignature

/-- Nothing is behind the frame. -/
theorem agrees_signatureState : Agrees rawZstd zeroBuild idleSystem signatureState
    (loadState rawZstd copyArchive zeroBuild (fun _ => some signatureState) 1 idleSystem)
    (loadStateBuffer rawZstd copyArchive zeroBuild signatureState idleSystem) := by
  refine (agrees_iff documented_rawZstd (by decide) (by decide) rfl rfl).mpr fun _ content n hframe _ => ?_
  have hraw : rawFrame (signatureState.drop sizeofCSTHeader) = some (archiveSignature, 39) := by decide +kernel
  obtain ⟨rfl, rfl⟩ := Prod.mk.inj (Option.some.inj (hraw.symm.trans hframe))
  have hrest : (signatureState.drop sizeofCSTHeader).drop 39 = [] := by decide +kernel
  exact ⟨by decide +kernel, by rw [hrest, contents, dif_pos rfl]⟩

theorem started_padded :
    (loadState rawZstd copyArchive zeroBuild (fun _ => some (signatureState ++ [0])) 1 idleSystem).started =
        some archiveSignature ∧
      (loadStateBuffer rawZstd copyArchive zeroBuild (signatureState ++ [0]) idleSystem).started = none := by
  have hvalid : Valid zeroBuild 0 (signatureState ++ [0]) :=
    ⟨by decide, by decide, by decide⟩
  have hraw : rawZstd.frame ((signatureState ++ [0]).drop sizeofCSTHeader) = some (archiveSignature, 39) := by
    decide +kernel
  have hrest : ((signatureState ++ [0]).drop sizeofCSTHeader).drop 39 = [0] := by decide +kernel
  have hmixed : ¬Plain rawZstd ((signatureState ++ [0]).drop sizeofCSTHeader) 39 := by
    rintro ⟨-, hcontents⟩
    have hnone : rawZstd.frame [0] = none := by decide
    rw [hrest, Decoder.contents_eq_none (List.cons_ne_nil _ _) hnone] at hcontents
    exact Option.some_ne_none _ hcontents.symm
  constructor
  · rw [loadState_of_frame documented_rawZstd (by decide) rfl rfl hvalid hraw]
    exact started_deserialize (by decide +kernel) _
  · rw [loadStateBuffer_of_valid hvalid (by decide +kernel),
      (decompressDataZSTD_of_frame documented_rawZstd hraw).2 hmixed, deserialize_of_not_opens (by decide)]

theorem not_agrees_padded : ¬Agrees rawZstd zeroBuild idleSystem (signatureState ++ [0])
    (loadState rawZstd copyArchive zeroBuild (fun _ => some (signatureState ++ [0])) 1 idleSystem)
    (loadStateBuffer rawZstd copyArchive zeroBuild (signatureState ++ [0]) idleSystem) := by
  intro hagrees
  have hsame := hagrees.started
  rw [started_padded.1, started_padded.2] at hsame
  exact Option.some_ne_none _ hsame

end Cytrus.Core.SaveState
