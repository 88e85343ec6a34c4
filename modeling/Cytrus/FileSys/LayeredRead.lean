import Cytrus.FileSys.RebuiltWalk

/-!
# Reading a rebuilt image

The image of a rebuilt tree is its metadata followed by the contents of its
files, each padded to 16 bytes. `ReadFile` starts at the last non-empty file
that begins at or below the offset, and goes from there from file to file. With
no such file there is no iterator to start from, whatever is to be read.

## Main results

* `readFiles_from`: what the loop of `ReadFile` leaves in the buffer
* `readFile_image_iff`: when reads deliver the image

## Implementation notes

The contents of a file are there with the size that loading has found. The
bytes of a buffer behind the range that is read are kept, and said to be.
-/

namespace Cytrus.FileSys.LayeredFS

open Support

/-! ## The image -/

section Image

variable (host : Host)

/-- What the relocation of a file puts in its place. -/
def contents (file : File) : Option (List UInt8) :=
  match file.relocation.type with
  | .none => some ((host.romfs.drop file.relocation.originalOffset).take file.relocation.size.toNat)
  | .replaced => host.file file.relocation.replaceFilePath
  | .patched => some file.relocation.patchedFile
  | .removed => none

/-- The contents of a file are there, and have its size. -/
def Backed (file : File) : Prop :=
  ∃ data, contents host file = some data ∧ data.length = file.relocation.size.toNat

/-- What a file takes behind the metadata. -/
def padded (file : File) : List UInt8 :=
  (contents host file).getD [] ++ List.replicate
    (alignUp file.relocation.size.toNat 16 - file.relocation.size.toNat) 0

/-- The data of a list of files. -/
def fileData (l : List FileRef) : List UInt8 := l.flatMap fun r => padded host r.file

/-- The virtual image: the metadata, and the files behind it. -/
def image (fs : LayeredFS) : List UInt8 := fs.metadata ++ fileData host fs.fileList

variable {host} {file : File} {r : FileRef} {l pre post : List FileRef}

theorem Backed.length_padded (h : Backed host file) :
    (padded host file).length = alignUp file.relocation.size.toNat 16 := by
  obtain ⟨data, hdata, hlength⟩ := h
  have hle := @le_alignUp file.relocation.size.toNat 16 (by decide)
  simp only [padded, hdata, Option.getD_some, List.length_append, List.length_replicate, hlength]
  omega

@[simp] theorem fileData_nil : fileData host [] = [] := rfl

@[simp] theorem fileData_cons :
    fileData host (r :: l) = padded host r.file ++ fileData host l := rfl

theorem fileData_append : fileData host (pre ++ post) = fileData host pre ++ fileData host post :=
  List.flatMap_append

@[simp] theorem dataOffset_nil : dataOffset [] = 0 := rfl

@[simp] theorem dataOffset_cons :
    dataOffset (r :: l) = alignUp r.file.relocation.size.toNat 16 + dataOffset l := by
  simp [dataOffset]

theorem dataOffset_append : dataOffset (pre ++ post) = dataOffset pre + dataOffset post := by
  simp [dataOffset]

theorem length_fileData (h : ∀ r ∈ l, Backed host r.file) :
    (fileData host l).length = dataOffset l := by
  induction l with
  | nil => rfl
  | cons r l ih =>
      have hr := (h r List.mem_cons_self).length_padded
      have hl := ih fun x hx => h x (List.mem_cons_of_mem r hx)
      rw [fileData_cons, List.length_append, hr, hl, dataOffset_cons]

theorem slice_image {fs : LayeredFS} (h : ∀ r ∈ fs.fileList, Backed host r.file)
    (hl : fs.fileList = pre ++ r :: post) :
    slice (image host fs) (fs.metadata.length + dataOffset pre)
      (alignUp r.file.relocation.size.toNat 16) = some (padded host r.file) := by
  have hpre : (fileData host pre).length = dataOffset pre :=
    length_fileData fun x hx => h x (by simp [hl, hx])
  have hr := (h r (by simp [hl])).length_padded
  have himage : image host fs =
      (fs.metadata ++ fileData host pre) ++ padded host r.file ++ fileData host post := by
    rw [image, hl, fileData_append, fileData_cons]
    simp only [List.append_assoc]
  have hslice := slice_append_length (fs.metadata ++ fileData host pre) (padded host r.file)
    (fileData host post)
  rwa [← himage, List.length_append, hpre, hr] at hslice

end Image

/-! ## The files by their data offset -/

/-- The entries of the data offset map: the files that are not empty. -/
def dataEntries : Nat → List FileRef → OrderedMap.Entries Nat File
  | _, [] => []
  | start, r :: l =>
      let rest := dataEntries (start + alignUp r.file.relocation.size.toNat 16) l
      if r.file.relocation.size = 0 then rest else (start, r.file) :: rest

section Entries

variable {start k : Nat} {file : File} {r : FileRef} {l : List FileRef} {fs : LayeredFS}

theorem alignUp_empty (h : file.relocation.size = 0) : alignUp file.relocation.size.toNat 16 = 0 := by
  simp [h, alignUp]

theorem dataEntries_empty (h : r.file.relocation.size = 0) :
    dataEntries start (r :: l) = dataEntries start l := by
  simp [dataEntries, h, alignUp]

theorem dataEntries_cons (h : r.file.relocation.size ≠ 0) :
    dataEntries start (r :: l) =
      (start, r.file) :: dataEntries (start + alignUp r.file.relocation.size.toNat 16) l := by
  simp [dataEntries, h]

theorem alignUp_pos (h : file.relocation.size ≠ 0) : 0 < alignUp file.relocation.size.toNat 16 := by
  have hpos : file.relocation.size.toNat ≠ 0 := fun h0 => h (UInt64.toNat_inj.mp h0)
  have hle := @le_alignUp file.relocation.size.toNat 16 (by decide)
  omega

theorem dataEntries_le {e : Nat × File} (h : e ∈ dataEntries start l) : start ≤ e.1 := by
  induction l generalizing start with
  | nil => cases h
  | cons r l ih =>
      by_cases hsize : r.file.relocation.size = 0
      · rw [dataEntries_empty hsize] at h
        exact ih h
      · rw [dataEntries_cons hsize] at h
        rcases List.mem_cons.mp h with rfl | h
        · exact le_rfl
        · exact (Nat.le_add_right _ _).trans (ih h)

theorem dataEntries_sorted : OrderedMap.Sorted (dataEntries start l) := by
  induction l generalizing start with
  | nil => exact List.Pairwise.nil
  | cons r l ih =>
      by_cases hsize : r.file.relocation.size = 0
      · rw [dataEntries_empty hsize]
        exact ih
      · rw [dataEntries_cons hsize]
        refine List.pairwise_cons.mpr ⟨fun e he => ?_, ih⟩
        have hle := dataEntries_le he
        have hpos := alignUp_pos hsize
        simp only
        omega

theorem head_dataEntries {e : Nat × File} (h : e ∈ (dataEntries start l).head?) : e.1 = start := by
  induction l generalizing start with
  | nil => cases h
  | cons r l ih =>
      by_cases hsize : r.file.relocation.size = 0
      · rw [dataEntries_empty hsize] at h
        exact ih h
      · rw [dataEntries_cons hsize] at h
        simp only [List.head?_cons, Option.mem_some_iff] at h
        rw [← h]

theorem dataEntries_eq_nil (h : dataEntries start l = []) : dataOffset l = 0 := by
  induction l generalizing start with
  | nil => rfl
  | cons r l ih =>
      by_cases hsize : r.file.relocation.size = 0
      · rw [dataEntries_empty hsize] at h
        rw [dataOffset_cons, ih h, alignUp_empty hsize]
      · rw [dataEntries_cons hsize] at h
        cases h

theorem dataEntries_ne_nil :
    dataEntries start l ≠ [] ↔ ∃ r ∈ l, r.file.relocation.size ≠ 0 := by
  induction l generalizing start with
  | nil => simp [dataEntries]
  | cons r l ih =>
      by_cases hsize : r.file.relocation.size = 0
      · rw [dataEntries_empty hsize, ih]
        simp [hsize]
      · rw [dataEntries_cons hsize]
        simp [hsize]

theorem dataEntries_split {before behind : OrderedMap.Entries Nat File}
    (h : dataEntries start l = before ++ (k, file) :: behind) :
    ∃ pre r post, l = pre ++ r :: post ∧ r.file = file ∧ k = start + dataOffset pre ∧
      behind = dataEntries (k + alignUp file.relocation.size.toNat 16) post := by
  induction l generalizing start before with
  | nil => simp [dataEntries] at h
  | cons r l ih =>
      by_cases hsize : r.file.relocation.size = 0
      · rw [dataEntries_empty hsize] at h
        obtain ⟨pre, x, post, rfl, hx, hk, hbehind⟩ := ih h
        exact ⟨r :: pre, x, post, rfl, hx, by rw [dataOffset_cons, alignUp_empty hsize, Nat.zero_add, hk],
          hbehind⟩
      · rw [dataEntries_cons hsize] at h
        cases before with
        | nil =>
            obtain ⟨hhead, rfl⟩ := List.cons.inj h
            obtain ⟨rfl, rfl⟩ := Prod.mk.inj hhead
            exact ⟨[], r, l, rfl, rfl, rfl, rfl⟩
        | cons e before =>
            obtain ⟨-, htail⟩ := List.cons.inj h
            obtain ⟨pre, x, post, rfl, hx, hk, hbehind⟩ := ih htail
            exact ⟨r :: pre, x, post, rfl, hx, by rw [dataOffset_cons, hk, Nat.add_assoc], hbehind⟩

theorem assignData_all (l : List FileRef) {fs : LayeredFS}
    (h : ∀ e ∈ fs.dataOffsetMap, e.1 < fs.currentDataOffset) :
    l.foldl (fun fs r => fs.assignData r.file) fs =
      { fs with
        currentDataOffset := fs.currentDataOffset + dataOffset l
        dataOffsetMap := fs.dataOffsetMap ++ dataEntries fs.currentDataOffset l } := by
  induction l generalizing fs with
  | nil => simp [dataEntries]
  | cons r l ih =>
      by_cases hsize : r.file.relocation.size = 0
      · have hstep : fs.assignData r.file = fs := by simp [assignData, hsize, alignUp]
        rw [List.foldl_cons, hstep, ih h, dataEntries_empty hsize, dataOffset_cons,
          alignUp_empty hsize, Nat.zero_add]
      · have hlast : OrderedMap.emplace fs.dataOffsetMap fs.currentDataOffset r.file =
            fs.dataOffsetMap ++ [(fs.currentDataOffset, r.file)] := by
          have hbehind : ∀ e ∈ ([] : OrderedMap.Entries Nat File).head?, fs.currentDataOffset < e.1 := by
            simp
          simpa using @OrderedMap.emplace_append _ _ _ fs.dataOffsetMap [] fs.currentDataOffset
            r.file h hbehind
        have hpos := alignUp_pos hsize
        have hkeys : ∀ e ∈ (fs.assignData r.file).dataOffsetMap,
            e.1 < (fs.assignData r.file).currentDataOffset := by
          simp only [assignData, hsize, if_false, hlast]
          intro e he
          rcases List.mem_append.mp he with he | he
          · exact (h e he).trans_le (Nat.le_add_right _ _)
          · obtain rfl := List.mem_singleton.mp he
            simp only
            omega
        rw [List.foldl_cons, ih hkeys, dataEntries_cons hsize, dataOffset_cons]
        simp [assignData, hsize, hlast, Nat.add_assoc]

end Entries

/-! ## The loop of `ReadFile` -/

section Loop

variable {host : Host} {length readSize key relative : Nat} {buffer : List UInt8} {file : File}
  {l post : List FileRef} {rest : OrderedMap.Entries Nat File}

theorem memcpy_ok {data : List UInt8} {offset : Nat} (h : offset + data.length ≤ buffer.length) :
    memcpy buffer offset data = .ok (overwrite buffer offset data) := if_pos h

theorem readFiles_done (entries : OrderedMap.Entries Nat File) (offset : Nat)
    (h : ¬readSize < length) :
    readFiles host length entries offset readSize buffer = .ok (readSize, buffer) := by
  cases entries with
  | nil => simp [readFiles, h]
  | cons e rest => simp [readFiles, h]

theorem readRelocated_eq {data : List UInt8} {toRead : Nat} (hdata : contents host file = some data)
    (hlength : data.length = file.relocation.size.toNat)
    (hroom : toRead ≠ 0 → relative + toRead ≤ data.length) :
    readRelocated host file.relocation relative toRead = .ok ((data.drop relative).take toRead) := by
  unfold contents at hdata
  unfold readRelocated
  cases htype : file.relocation.type with
  | none =>
      simp only [htype, Option.some.injEq] at hdata
      subst hdata
      have hinside : toRead ≤ file.relocation.size.toNat - relative := by
        by_cases h0 : toRead = 0
        · omega
        · have hle := hroom h0
          omega
      simp only [List.drop_take, List.drop_drop, List.take_take, Nat.min_eq_left hinside]
  | replaced =>
      simp only [htype] at hdata
      simp [hdata]
  | patched =>
      simp only [htype, Option.some.injEq] at hdata
      subst hdata
      have hinside : ¬(toRead ≠ 0 ∧ file.relocation.patchedFile.length < relative + toRead) := by
        rintro ⟨h0, hlt⟩
        have hle := hroom h0
        omega
      simp [hinside]
  | removed => simp [htype] at hdata

theorem take_padded {data : List UInt8} {n toRead alignment : Nat}
    (hdata : contents host file = some data) (hlength : data.length = file.relocation.size.toNat)
    (hread : toRead = min (file.relocation.size.toNat - relative) n)
    (halign : alignment = min (alignUp file.relocation.size.toNat 16 - relative) n - toRead) :
    ((padded host file).drop relative).take n =
      (data.drop relative).take toRead ++ List.replicate alignment 0 := by
  have hcontents : (data.drop relative).take n = (data.drop relative).take toRead := by
    rw [List.take_eq_take_iff, List.length_drop, hlength]
    omega
  have hzeros : min (n - (data.drop relative).length)
      (alignUp file.relocation.size.toNat 16 - file.relocation.size.toNat -
        (relative - data.length)) = alignment := by
    rw [List.length_drop, hlength]
    omega
  calc ((padded host file).drop relative).take n
      = (data.drop relative).take n ++ List.replicate (min (n - (data.drop relative).length)
          (alignUp file.relocation.size.toNat 16 - file.relocation.size.toNat -
            (relative - data.length))) 0 := by
        rw [padded, hdata, Option.getD_some, List.drop_append, List.take_append,
          List.drop_replicate, List.take_replicate]
    _ = (data.drop relative).take toRead ++ List.replicate alignment 0 := by
        rw [hcontents, hzeros]

theorem readFiles_round (hbacked : Backed host file) (hlt : readSize < length)
    (hbuffer : length ≤ buffer.length) {data : List UInt8}
    (hdata : ((padded host file).drop relative).take (length - readSize) = data) :
    readFiles host length ((key, file) :: rest) (key + relative) readSize buffer =
      readFiles host length rest (key + relative + data.length) (readSize + data.length)
        (overwrite buffer readSize data) := by
  obtain ⟨whole, hwhole, hlength⟩ := hbacked
  rw [readFiles, if_pos hlt, Nat.add_sub_cancel_left]
  simp only
  generalize hread : (if relative < file.relocation.size.toNat then
    min (file.relocation.size.toNat - relative) (length - readSize) else 0) = toRead
  generalize halign : min (alignUp file.relocation.size.toNat 16 - relative)
    (length - readSize) - toRead = alignment
  have hmin : toRead = min (file.relocation.size.toNat - relative) (length - readSize) := by
    rw [← hread]
    split <;> omega
  have hpart : ((whole.drop relative).take toRead).length = toRead := by
    rw [List.length_take, List.length_drop, hlength]
    omega
  have hparts := (take_padded hwhole hlength hmin halign.symm).symm.trans hdata
  have hsize : toRead + alignment = data.length := by
    rw [← hparts, List.length_append, hpart, List.length_replicate]
  have hle : toRead + alignment ≤ length - readSize := by
    rw [hsize, ← hdata]
    exact List.length_take_le _ _
  have hfirst : readSize + ((whole.drop relative).take toRead).length ≤ buffer.length := by
    rw [hpart]
    omega
  have hsecond : readSize + toRead + (List.replicate alignment (0 : UInt8)).length ≤
      (overwrite buffer readSize ((whole.drop relative).take toRead)).length := by
    rw [length_overwrite hfirst, List.length_replicate]
    omega
  have hboth := @overwrite_overwrite _ buffer _ (List.replicate alignment (0 : UInt8)) readSize hfirst
  rw [hpart, hparts] at hboth
  rw [readRelocated_eq hwhole hlength (fun _ => by omega), ok_bind, memcpy_ok hfirst, ok_bind,
    memcpy_ok hsecond, ok_bind, hboth, hsize]

theorem readFiles_inside (hbacked : Backed host file)
    (hrelative : relative ≤ alignUp file.relocation.size.toNat 16)
    (hsize : readSize ≤ length) (hbuffer : length ≤ buffer.length)
    (hroom : length - readSize ≤ (padded host file ++ fileData host post).length - relative)
    (hnext : ∀ readSize buffer, readSize ≤ length → length ≤ buffer.length →
      length - readSize ≤ (fileData host post).length →
      readFiles host length rest (key + alignUp file.relocation.size.toNat 16) readSize buffer =
        .ok (length, overwrite buffer readSize ((fileData host post).take (length - readSize)))) :
    readFiles host length ((key, file) :: rest) (key + relative) readSize buffer =
      .ok (length, overwrite buffer readSize
        (((padded host file ++ fileData host post).drop relative).take (length - readSize))) := by
  have hpadded := hbacked.length_padded
  rcases Nat.lt_or_ge readSize length with hlt | hge
  · rw [readFiles_round hbacked hlt hbuffer rfl]
    generalize hdata : ((padded host file).drop relative).take (length - readSize) = data
    have hlength : data.length =
        min (length - readSize) (alignUp file.relocation.size.toNat 16 - relative) := by
      rw [← hdata, List.length_take, List.length_drop, hpadded]
    have hsplit : ((padded host file ++ fileData host post).drop relative).take (length - readSize) =
        data ++ (fileData host post).take (length - readSize - data.length) := by
      rw [List.drop_append_of_le_length (by rw [hpadded]; exact hrelative), List.take_append, hdata,
        List.length_drop, hpadded]
      congr 2
      omega
    have hfits : readSize + data.length ≤ buffer.length := by omega
    by_cases hend : readSize + data.length < length
    · -- the file is read up to its padding's end, and the next one starts there
      have hkey : key + relative + data.length = key + alignUp file.relocation.size.toNat 16 := by
        omega
      rw [List.length_append, hpadded] at hroom
      rw [hkey, hnext _ _ hend.le (by rw [length_overwrite hfits]; exact hbuffer) (by omega),
        overwrite_overwrite hfits, hsplit, Nat.sub_add_eq]
    · have hall : readSize + data.length = length := by omega
      rw [readFiles_done _ _ hend, hsplit, hall, ← Nat.sub_add_eq, hall, Nat.sub_self, List.take_zero,
        List.append_nil]
  · have hall : readSize = length := by omega
    subst hall
    rw [readFiles_done _ _ (lt_irrefl _), Nat.sub_self, List.take_zero, overwrite_nil]

/-- The loop from the start of a file on. -/
theorem readFiles_from {start : Nat} (hbacked : ∀ r ∈ l, Backed host r.file)
    (hsize : readSize ≤ length) (hbuffer : length ≤ buffer.length)
    (hroom : length - readSize ≤ (fileData host l).length) :
    readFiles host length (dataEntries start l) start readSize buffer =
      .ok (length, overwrite buffer readSize ((fileData host l).take (length - readSize))) := by
  induction l generalizing start readSize buffer with
  | nil =>
      have hall : readSize = length := by
        rw [fileData_nil, List.length_nil] at hroom
        omega
      subst hall
      rw [readFiles_done _ _ (lt_irrefl _), fileData_nil, List.take_nil, overwrite_nil]
  | cons r l ih =>
      have hr := hbacked r List.mem_cons_self
      have hl : ∀ x ∈ l, Backed host x.file := fun x hx => hbacked x (List.mem_cons_of_mem r hx)
      by_cases hempty : r.file.relocation.size = 0
      · have hnil : padded host r.file = [] := by
          rw [← List.length_eq_zero_iff, hr.length_padded, alignUp_empty hempty]
        rw [fileData_cons, hnil, List.nil_append] at hroom ⊢
        rw [dataEntries_empty hempty]
        exact ih hl hsize hbuffer hroom
      · rw [dataEntries_cons hempty, fileData_cons]
        rw [fileData_cons] at hroom
        exact @readFiles_inside _ _ _ _ 0 _ _ _ _ hr (Nat.zero_le _) hsize hbuffer hroom
          fun readSize buffer hsize hbuffer hroom => ih hl hsize hbuffer hroom

end Loop

/-! ## Where a read starts -/

section Start

variable {l : List FileRef} {offset : Nat}

theorem start_at (hne : dataEntries 0 l ≠ []) (hoffset : offset ≤ dataOffset l) :
    ∃ pre r post, l = pre ++ r :: post ∧ dataOffset pre ≤ offset ∧
      offset ≤ dataOffset pre + alignUp r.file.relocation.size.toNat 16 ∧
      OrderedMap.prev (dataEntries 0 l) (OrderedMap.upperBound (dataEntries 0 l) offset) =
        some (dataOffset pre) ∧
      (dataEntries 0 l).dropWhile (fun e => e.1 < dataOffset pre) =
        (dataOffset pre, r.file) ::
          dataEntries (dataOffset pre + alignUp r.file.relocation.size.toNat 16) post := by
  have hsplit := List.takeWhile_append_dropWhile (p := fun e : Nat × File => decide (e.1 ≤ offset))
    (l := dataEntries 0 l)
  generalize hbefore : (dataEntries 0 l).takeWhile (fun e => decide (e.1 ≤ offset)) = before at hsplit
  generalize hbehind : (dataEntries 0 l).dropWhile (fun e => decide (e.1 ≤ offset)) = behind at hsplit
  have hle : ∀ e ∈ before, e.1 ≤ offset := by
    intro e he
    rw [← hbefore] at he
    simpa using List.all_eq_true.mp List.all_takeWhile e he
  have hlt : ∀ e ∈ behind.head?, offset < e.1 := by
    intro e he
    rw [← hbehind] at he
    have hnot := List.head?_dropWhile_not (fun e : Nat × File => decide (e.1 ≤ offset)) (dataEntries 0 l)
    rw [he] at hnot
    simpa using hnot
  have hsome : before ≠ [] := by
    rintro rfl
    obtain ⟨e, rest, he⟩ := List.exists_cons_of_ne_nil hne
    have hkey : e.1 = 0 := head_dataEntries (by rw [he]; rfl)
    have hhead : offset < e.1 := hlt e (by rw [← List.nil_append behind, hsplit, he]; rfl)
    omega
  obtain ⟨front, ⟨k, file⟩, rfl⟩ : ∃ front e, before = front ++ [e] :=
    ⟨before.dropLast, before.getLast hsome, (List.dropLast_append_getLast hsome).symm⟩
  have hentries : dataEntries 0 l = front ++ (k, file) :: behind := by
    rw [← hsplit, List.append_assoc]
    rfl
  obtain ⟨pre, r, post, hl, rfl, hk, hpost⟩ := dataEntries_split hentries
  rw [Nat.zero_add] at hk
  subst hk
  have hsorted : OrderedMap.Sorted (front ++ (dataOffset pre, r.file) :: behind) :=
    hentries ▸ dataEntries_sorted
  refine ⟨pre, r, post, hl, hle (dataOffset pre, r.file) (by simp), ?_, ?_, ?_⟩
  · cases hbehind' : behind with
    | nil =>
        have hrest := dataEntries_eq_nil (hpost.symm.trans hbehind')
        rw [hl, dataOffset_append, dataOffset_cons, hrest] at hoffset
        exact hoffset
    | cons e rest =>
        have hhead : e ∈ behind.head? := by rw [hbehind']; rfl
        have hkey := head_dataEntries (hpost ▸ hhead)
        exact hkey ▸ (hlt e hhead).le
  · rw [← hsplit, OrderedMap.upperBound_append hle hlt,
      OrderedMap.prev_append (hsplit ▸ dataEntries_sorted)]
    simp
  · have hfront : ∀ e ∈ front, decide (e.1 < dataOffset pre) = true := by
      intro e he
      simpa using hsorted.lt_of_mem_pre e he
    rw [hentries, List.dropWhile_append_of_pos hfront, List.dropWhile_cons_of_neg (by simp), hpost]

end Start

/-! ## Reads of a rebuilt tree -/

section Reads

/-- What the parts of a range deliver, one after the other. -/
def readParts (fs : LayeredFS) (host : Host) : Nat → List Nat → Except RomFSFault (List UInt8)
  | _, [] => .ok []
  | offset, length :: rest => do
      let (readSize, data) ← fs.readFile host offset length (List.replicate length 0)
      let behind ← readParts fs host (offset + length) rest
      return data.take readSize ++ behind

/-- Every read inside of the image delivers it, and so do the reads of the parts of a range. The
image holds each file at the offset that `file_entry` finds in the tables. -/
structure ReadsImage (fs : LayeredFS) (host : Host) : Prop where
  length_image : (image host fs).length = fs.getSize
  file : ∀ pre r post, fs.fileList = pre ++ r :: post →
    slice (image host fs) (fs.metadata.length + dataOffset pre)
      (alignUp r.file.relocation.size.toNat 16) = some (padded host r.file)
  read : ∀ offset length buffer, offset + length ≤ fs.getSize → length ≤ buffer.length →
    fs.readFile host offset length buffer =
      .ok (length, overwrite buffer 0 (((image host fs).drop offset).take length))
  partition : ∀ offset lengths, offset + lengths.sum ≤ fs.getSize →
    fs.readParts host offset lengths = fs.readParts host offset [lengths.sum]

variable {toU16 : Chars → List UInt16} {tree : RomFSTree} {fs : LayeredFS} {host : Host}

theorem bind_eq_ok {α β : Type} {x : Except RomFSFault α} {next : α → Except RomFSFault β} {b : β}
    (h : x >>= next = .ok b) : ∃ a, x = .ok a ∧ next a = .ok b := by
  cases x with
  | error f => simp at h
  | ok a => exact ⟨a, rfl, h⟩

theorem writeMetadata_keeps {fs' : LayeredFS} (h : fs.writeMetadata = .ok fs') :
    ∃ metadata, fs' = { fs with metadata } := by
  obtain ⟨_, -, h⟩ := bind_eq_ok h
  obtain ⟨_, -, h⟩ := bind_eq_ok h
  obtain ⟨_, -, h⟩ := bind_eq_ok h
  obtain ⟨_, -, h⟩ := bind_eq_ok h
  obtain ⟨metadata, -, h⟩ := bind_eq_ok h
  exact ⟨metadata, (Except.ok.inj h).symm⟩

theorem rebuilt_data (h : rebuildMetadata toU16 { root := tree.root } = .ok fs) :
    fs.fileList = keptFiles tree.root ∧ fs.currentDataOffset = dataOffset (keptFiles tree.root) ∧
      fs.dataOffsetMap = dataEntries 0 (keptFiles tree.root) := by
  have hfirst := firstFilesKept_of_rebuild tree h
  rw [rebuildMetadata_eq (fun r hr => directoryLinked hfirst hr) fun r hr => fileLinked hr] at h
  obtain ⟨metadata, rfl⟩ := writeMetadata_keeps h
  have hnone : ∀ e ∈ (withDirectories toU16 tree.root).dataOffsetMap,
      e.1 < (withDirectories toU16 tree.root).currentDataOffset := by
    intro e he
    cases he
  have hassign := assignData_all (keptFiles tree.root) hnone
  rw [withFiles, hassign]
  exact ⟨rfl, Nat.zero_add _, rfl⟩

variable (hbacked : ∀ r ∈ fs.fileList, Backed host r.file)
  (hoffset : fs.currentDataOffset = dataOffset fs.fileList)
  (hmap : fs.dataOffsetMap = dataEntries 0 fs.fileList)

include hbacked hoffset in
theorem image_length : (image host fs).length = fs.getSize := by
  rw [image, List.length_append, length_fileData hbacked, getSize, hoffset]

include hbacked hoffset hmap in
theorem readFiles_image {offset length readSize : Nat} {buffer : List UInt8}
    (hne : fs.dataOffsetMap ≠ []) (hsize : readSize ≤ length) (hbuffer : length ≤ buffer.length)
    (hroom : offset + (length - readSize) ≤ fs.currentDataOffset) :
    ∃ current, OrderedMap.prev fs.dataOffsetMap (OrderedMap.upperBound fs.dataOffsetMap offset) =
        some current ∧
      readFiles host length (fs.dataOffsetMap.dropWhile fun e => e.1 < current) offset readSize
        buffer = .ok (length, overwrite buffer readSize
          (((fileData host fs.fileList).drop offset).take (length - readSize))) := by
  rw [hmap] at hne ⊢
  rw [hoffset] at hroom
  obtain ⟨pre, r, post, hl, hle, hge, hprev, hdrop⟩ :=
    @start_at fs.fileList offset hne (by omega)
  refine ⟨dataOffset pre, hprev, ?_⟩
  obtain ⟨relative, rfl⟩ := Nat.exists_eq_add_of_le hle
  have hpre : (fileData host pre).length = dataOffset pre :=
    length_fileData fun x hx => hbacked x (by simp [hl, hx])
  have hr : Backed host r.file := hbacked r (by simp [hl])
  have hpost : ∀ x ∈ post, Backed host x.file := fun x hx => hbacked x (by simp [hl, hx])
  have hdata : (fileData host fs.fileList).drop (dataOffset pre + relative) =
      (padded host r.file ++ fileData host post).drop relative := by
    rw [hl, fileData_append, fileData_cons, ← List.drop_drop, ← hpre, List.drop_left]
  rw [hdrop, hdata]
  refine readFiles_inside hr (by omega) hsize hbuffer ?_
    fun readSize buffer hsize hbuffer hroom => readFiles_from hpost hsize hbuffer hroom
  rw [hl, dataOffset_append, dataOffset_cons] at hroom
  rw [List.length_append, hr.length_padded, length_fileData hpost]
  omega

include hbacked hoffset hmap in
theorem readFile_eq {offset length : Nat} {buffer : List UInt8} (hne : fs.dataOffsetMap ≠ [])
    (hinside : offset + length ≤ fs.getSize) (hbuffer : length ≤ buffer.length) :
    fs.readFile host offset length buffer =
      .ok (length, overwrite buffer 0 (((image host fs).drop offset).take length)) := by
  rw [readFile, if_pos hinside]
  rw [getSize] at hinside
  by_cases hmeta : offset < fs.metadata.length
  · simp only [if_pos hmeta]
    generalize hread : min (fs.metadata.length - offset) length = readSize
    have hlength : ((fs.metadata.drop offset).take readSize).length = readSize := by
      rw [List.length_take, List.length_drop]
      omega
    have hfits : 0 + ((fs.metadata.drop offset).take readSize).length ≤ buffer.length := by omega
    obtain ⟨current, hprev, hfiles⟩ := @readFiles_image fs host hbacked hoffset hmap 0 length readSize
      (overwrite buffer 0 ((fs.metadata.drop offset).take readSize)) hne (by omega)
      (by rw [length_overwrite hfits]; exact hbuffer) (by omega)
    have himage : ((image host fs).drop offset).take length =
        (fs.metadata.drop offset).take readSize ++
          (fileData host fs.fileList).take (length - readSize) := by
      rw [image, List.drop_append_of_le_length hmeta.le, List.take_append, List.length_drop]
      congr 1
      · rw [List.take_eq_take_iff, List.length_drop]
        omega
      · congr 1
        omega
    have hboth := @overwrite_overwrite _ buffer _
      ((fileData host fs.fileList).take (length - readSize)) 0 hfits
    rw [hlength, Nat.zero_add] at hboth
    rw [memcpy_ok hfits, ok_bind, hprev, himage, ← hboth]
    exact hfiles
  · simp only [if_neg hmeta]
    have hnil : (fs.metadata.drop offset).take 0 = [] := List.take_zero
    obtain ⟨current, hprev, hfiles⟩ := @readFiles_image fs host hbacked hoffset hmap
      (offset - fs.metadata.length) length 0 buffer hne (Nat.zero_le _) hbuffer (by omega)
    have himage : (image host fs).drop offset =
        (fileData host fs.fileList).drop (offset - fs.metadata.length) := by
      rw [image, List.drop_append, List.drop_eq_nil_of_le (Nat.le_of_not_lt hmeta), List.nil_append]
    rw [hnil, memcpy_ok (by simp), ok_bind, overwrite_nil, hprev, himage]
    exact hfiles

include hbacked hoffset hmap in
theorem readParts_eq {offset : Nat} {lengths : List Nat} (hne : fs.dataOffsetMap ≠ [])
    (hinside : offset + lengths.sum ≤ fs.getSize) :
    fs.readParts host offset lengths =
      .ok (((image host fs).drop offset).take lengths.sum) := by
  induction lengths generalizing offset with
  | nil => rfl
  | cons length rest ih =>
      rw [List.sum_cons] at hinside ⊢
      have hread := readFile_eq hbacked hoffset hmap hne (show offset + length ≤ fs.getSize by omega)
        (List.length_replicate (n := length) (a := (0 : UInt8))).ge
      have hlength : (((image host fs).drop offset).take length).length = length := by
        rw [List.length_take, List.length_drop, image_length hbacked hoffset]
        omega
      have hdata : (overwrite (List.replicate length 0) 0
          (((image host fs).drop offset).take length)).take length =
            ((image host fs).drop offset).take length := by
        rw [overwrite, List.take_zero, List.nil_append, List.take_append_of_le_length hlength.ge,
          List.take_take, Nat.min_self]
      have hrest := @ih (offset + length) (by omega)
      rw [readParts, hread, ok_bind]
      simp only [hrest, ok_bind, hdata]
      rw [List.take_add, List.drop_drop]
      rfl

/-- Reads of a rebuilt tree deliver its image if, and only if, it has a file that is not empty. -/
theorem readFile_image_iff (h : rebuildMetadata toU16 { root := tree.root } = .ok fs)
    (hbacked : ∀ r ∈ keptFiles tree.root, Backed host r.file) :
    fs.ReadsImage host ↔ ∃ r ∈ keptFiles tree.root, r.file.relocation.size ≠ 0 := by
  obtain ⟨hlist, hoffset, hmap⟩ := rebuilt_data h
  rw [← hlist] at hbacked hoffset hmap ⊢
  rw [← @dataEntries_ne_nil 0, ← hmap]
  constructor
  · rintro himage hempty
    have hread := himage.read 0 0 [] (Nat.zero_le _) le_rfl
    simp [readFile, hempty, memcpy, OrderedMap.prev, OrderedMap.upperBound] at hread
  · intro hne
    exact {
      length_image := image_length hbacked hoffset
      file := fun pre r post hl => slice_image hbacked hl
      read := fun offset length buffer hinside hbuffer =>
        readFile_eq hbacked hoffset hmap hne hinside hbuffer
      partition := fun offset lengths hinside => by
        have hwhole : offset + [lengths.sum].sum ≤ fs.getSize := by simpa using hinside
        rw [readParts_eq hbacked hoffset hmap hne hinside,
          readParts_eq hbacked hoffset hmap hne hwhole, List.sum_singleton] }

/-- A root with an empty file and one file of each kind. -/
def oneOfEach : RomFSTree where
  root := ⟨0, [], [
    ⟨0, ['a'.toUInt8], {}⟩,
    ⟨1, ['b'.toUInt8], { originalOffset := 1, size := 2 }⟩,
    ⟨2, ['c'.toUInt8], { type := .replaced, replaceFilePath := ['c'.toUInt8], size := 1 }⟩,
    ⟨3, ['d'.toUInt8], { type := .patched, patchedFile := [5], size := 1 }⟩], []⟩
  directories_nodup := by decide
  files_nodup := by decide

/-- An image of three bytes, and a file of one byte under any path. -/
def smallHost : Host := ⟨[1, 2, 3], fun _ => some [4]⟩

theorem readFile_oneOfEach :
    (rebuilt asciiToU16 oneOfEach.root).ReadsImage smallHost := by
  have hfirst : FirstFilesKept oneOfEach.root := by decide
  have hbacked : ∀ r ∈ keptFiles oneOfEach.root, Backed smallHost r.file := by
    intro r hr
    fin_cases hr
    · exact ⟨[], rfl, rfl⟩
    · exact ⟨[2, 3], rfl, rfl⟩
    · exact ⟨[4], rfl, rfl⟩
    · exact ⟨[5], rfl, rfl⟩
  exact (readFile_image_iff (rebuilt_tables hfirst (by decide)).1 hbacked).mpr
    (by decide)

/-- A root whose only file is empty. -/
def emptyOnly : RomFSTree where
  root := ⟨0, [], [⟨0, ['a'.toUInt8], {}⟩], []⟩
  directories_nodup := by decide
  files_nodup := by decide

/-- Not even the metadata of a tree without data can be read. -/
theorem readFile_emptyOnly :
    rebuildMetadata asciiToU16 { root := emptyOnly.root } = .ok (rebuilt asciiToU16 emptyOnly.root) ∧
      40 ≤ (rebuilt asciiToU16 emptyOnly.root).getSize ∧
      (∀ r ∈ keptFiles emptyOnly.root, Backed smallHost r.file) ∧
      (rebuilt asciiToU16 emptyOnly.root).readFile smallHost 0 40 (List.replicate 40 0) =
        .error .invalidIterator ∧
      ¬(rebuilt asciiToU16 emptyOnly.root).ReadsImage smallHost := by
  have hsize : 40 ≤ (rebuilt asciiToU16 emptyOnly.root).getSize := by decide +kernel
  have hfault : (rebuilt asciiToU16 emptyOnly.root).readFile smallHost 0 40 (List.replicate 40 0) =
      .error .invalidIterator := by decide +kernel
  refine ⟨(rebuilt_tables (by decide) (by decide)).1, hsize, ?_, hfault, ?_⟩
  · intro r hr
    fin_cases hr
    exact ⟨[], rfl, rfl⟩
  · intro himage
    have hread := himage.read 0 40 (List.replicate 40 0) hsize (by simp)
    rw [hfault] at hread
    cases hread

end Reads

end Cytrus.FileSys.LayeredFS
