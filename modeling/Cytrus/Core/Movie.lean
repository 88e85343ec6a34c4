import Cytrus.Support.Exec
import Cytrus.Core.ControllerState

/-!
# Movies

A movie records the inputs of a session, or plays them back. A save state holds
a copy of what was recorded and where the movie stood. Loading one restores this
in stages: where the movie stood before the state is checked, and the rest after.

## Implementation notes

A save state is the list of the members that `serialize` writes. An exception is
an error code, and leaves what was assigned before it. The callback at the end of
a playback does nothing to the movie.
-/

namespace Cytrus.Core

open Support
open Exec (post_bind post_get post_when)

inductive PlayMode where
  | none
  | recording
  | playing
  | movieFinished
  deriving DecidableEq, Repr

structure CTMHeader where
  filetype : List UInt8
  programId : UInt64
  revision : List UInt8
  clockInitTime : UInt64
  id : UInt64
  author : List UInt8
  rerecordCount : UInt32
  inputCount : UInt64
  timingBaseTicks : Int64

def headerMagicBytes : List UInt8 := [67, 84, 77, 0x1B]

def sizeofCTMHeader : Nat := 256

namespace CTMHeader

def bytes (header : CTMHeader) : List UInt8 :=
  header.filetype ++ toBytes 8 header.programId.toNat ++ header.revision ++
    toBytes 8 header.clockInitTime.toNat ++ toBytes 8 header.id.toNat ++ header.author ++
    toBytes 4 header.rerecordCount.toNat ++ toBytes 8 header.inputCount.toNat ++
    toBytes 8 header.timingBaseTicks.toUInt64.toNat ++ List.replicate 156 0

/-- The header at the start of a file. -/
def read (file : List UInt8) : CTMHeader where
  filetype := file.take 4
  programId := UInt64.ofNat (fieldAt file 4 8)
  revision := (file.drop 12).take 20
  clockInitTime := UInt64.ofNat (fieldAt file 32 8)
  id := UInt64.ofNat (fieldAt file 40 8)
  author := (file.drop 48).take 32
  rerecordCount := UInt32.ofNat (fieldAt file 80 4)
  inputCount := UInt64.ofNat (fieldAt file 84 8)
  timingBaseTicks := (UInt64.ofNat (fieldAt file 92 8)).toInt64

end CTMHeader

/-- `GetInputCount`: the records of buttons among the whole records. -/
def getInputCount : List UInt8 → Nat
  | type :: _ :: _ :: _ :: _ :: _ :: _ :: rest =>
      (if type = ControllerStateType.padAndCircle.number then 1 else 0) + getInputCount rest
  | _ => 0

structure Movie where
  playMode : PlayMode := .none
  recordMovieFile : String := ""
  recordMovieAuthor : List UInt8 := []
  initTime : UInt64 := 0
  baseTicks : Int64 := -1
  recordedInput : List UInt8 := []
  currentByte : Nat := 0
  currentInput : UInt64 := 0
  totalInput : UInt64 := 0
  id : UInt64 := 0
  programId : UInt64 := 0
  rerecordCount : UInt32 := 1
  readOnly : Bool := true

/-- What `serialize` writes. -/
structure MovieState where
  currentByte : Nat
  currentInput : UInt64
  recordedInput : List UInt8
  initTime : UInt64
  baseTicks : Int64
  id : UInt64
  postMovie : Bool
  deriving DecidableEq

/-- A movie, the files around it, and the states saved so far. -/
structure Session where
  movie : Movie
  files : String → Option (List UInt8)
  states : List MovieState := []

/-- What stays the same throughout: the version of the program, and which files can be written. -/
structure MovieHost where
  revision : List UInt8
  length_revision : revision.length = 20
  writable : String → Bool

/-- The exceptions that loading a state throws. -/
inductive MovieError where
  | closeMovie
  | otherMovie
  | futureEvent
  | timelineMismatch
  deriving DecidableEq, Repr

/-- `what()`. -/
def MovieError.message : MovieError → String
  | closeMovie => "You must close your movie to load this state"
  | otherMovie => "You must load the same movie to load this state"
  | futureEvent => "Future event savestate not allowed in R/O mode"
  | timelineMismatch => "Timeline mismatch not allowed in R/O mode"

inductive MovieFault where
  | assertFailed
  deriving DecidableEq, Repr

/-- A call on a movie. -/
abbrev MovieCall (α : Type) := Exec MovieFault MovieError Session α

inductive ValidationResult where
  | ok
  | revisionDismatch
  | inputCountDismatch
  | invalid
  deriving DecidableEq, Repr

/-! ## Calls -/

section Calls

variable (host : MovieHost)

/-- An assignment to members of the movie. -/
def assignMovie (f : Movie → Movie) : MovieCall PUnit :=
  Exec.modify fun s => { s with movie := f s.movie }

def validateHeader (header : CTMHeader) : ValidationResult :=
  if headerMagicBytes ≠ header.filetype then .invalid
  else if header.revision ≠ host.revision then .revisionDismatch
  else .ok

/-- The file that `SaveMovie` writes. -/
def Movie.header (m : Movie) : CTMHeader where
  filetype := headerMagicBytes
  programId := m.programId
  revision := host.revision
  clockInitTime := m.initTime
  id := m.id
  author := m.recordMovieAuthor.take 32 ++ List.replicate (32 - m.recordMovieAuthor.length) 0
  rerecordCount := m.rerecordCount
  inputCount := UInt64.ofNat (getInputCount m.recordedInput)
  timingBaseTicks := m.baseTicks

/-- The files after `SaveMovie`. -/
def Session.filesSaved (s : Session) : String → Option (List UInt8) :=
  if host.writable s.movie.recordMovieFile then
    Function.update s.files s.movie.recordMovieFile
      (some ((s.movie.header host).bytes ++ s.movie.recordedInput))
  else s.files

def saveMovie : MovieCall PUnit := Exec.modify fun s => { s with files := s.filesSaved host }

def checkInputEnd : MovieCall PUnit :=
  assignMovie fun m =>
    if m.recordedInput.length < m.currentByte + sizeofControllerState then
      { m with playMode := .movieFinished }
    else m

def playInput (args : Input) : MovieCall Input := do
  let s ← Exec.get
  let state := (s.movie.recordedInput.drop s.movie.currentByte).take sizeofControllerState
  assignMovie fun m => { m with
    currentByte := m.currentByte + sizeofControllerState
    currentInput := if args.IsPad then m.currentInput + 1 else m.currentInput }
  pure (args.play state)

/-- `Record`. The copy replaces the last bytes of the resized buffer. -/
def recordInput (args : Input) : MovieCall PUnit :=
  assignMovie fun m => { m with
    recordedInput :=
      (resized m.recordedInput (m.currentByte + sizeofControllerState) 0).take m.currentByte ++
        args.state
    currentByte := m.currentByte + sizeofControllerState
    currentInput := if args.IsPad then m.currentInput + 1 else m.currentInput }

/-- `Handle`, for each of the six kinds of input. -/
def handle (args : Input) : MovieCall Input := do
  let s ← Exec.get
  match s.movie.playMode with
  | .playing => do
      Exec.assert .assertFailed
        (s.movie.currentByte + sizeofControllerState ≤ s.movie.recordedInput.length)
      let played ← playInput args
      checkInputEnd
      pure played
  | .recording => do
      recordInput args
      pure args
  | _ => pure args

/-- What `StartPlayback` takes over from a file. -/
def Movie.playFile (m : Movie) (movieFile : String) (file : List UInt8) : Movie :=
  let header := CTMHeader.read file
  { m with
    playMode := .playing
    recordMovieFile := movieFile
    recordMovieAuthor := header.author.takeWhile (· ≠ 0)
    rerecordCount := header.rerecordCount
    totalInput := header.inputCount
    recordedInput := file.drop sizeofCTMHeader
    currentByte := 0
    currentInput := 0
    id := header.id
    programId := header.programId }

def startPlayback (movieFile : String) : MovieCall PUnit := do
  let s ← Exec.get
  match s.files movieFile with
  | none => pure ⟨⟩
  | some file =>
      Exec.when (sizeofCTMHeader < file.length ∧
          validateHeader host (CTMHeader.read file) ≠ .invalid)
        (assignMovie fun m => m.playFile movieFile file)

/-- `StartRecording`, with the identifiers that are drawn and read. -/
def startRecording (movieFile : String) (author : List UInt8) (id programId : UInt64) :
    MovieCall PUnit :=
  assignMovie fun m => { m with
    playMode := .recording
    recordMovieFile := movieFile
    recordMovieAuthor := author
    rerecordCount := 1
    id
    programId }

def setReadOnly (readOnly : Bool) : MovieCall PUnit := assignMovie fun m => { m with readOnly }

def shutdown : MovieCall PUnit := do
  let s ← Exec.get
  Exec.when (s.movie.playMode = .recording) (saveMovie host)
  assignMovie fun m => { m with
    playMode := .none
    recordedInput := []
    recordMovieFile := ""
    currentByte := 0
    currentInput := 0
    initTime := 0
    baseTicks := -1
    id := 0 }

/-- `serialize` into a save state. -/
def Movie.saved (m : Movie) : MovieState where
  currentByte := m.currentByte
  currentInput := m.currentInput
  recordedInput := m.recordedInput
  initTime := m.initTime
  baseTicks := m.baseTicks
  id := m.id
  postMovie := m.playMode = .movieFinished

def saveState : MovieCall PUnit :=
  Exec.modify fun s => { s with states := s.states ++ [s.movie.saved] }

/-- The end of `serialize` for a state that was made after the movie had started. -/
def resume (x : MovieState) : MovieCall PUnit := do
  assignMovie fun m => if m.readOnly then m else { m with recordedInput := x.recordedInput }
  let s ← Exec.get
  if x.postMovie then assignMovie fun m => { m with playMode := .movieFinished }
  else if s.movie.readOnly then do
    Exec.when (s.movie.playMode = .recording) (saveMovie host)
    Exec.require .futureEvent (x.recordedInput.length < s.movie.recordedInput.length)
    Exec.require .timelineMismatch
      (s.movie.recordedInput.take x.recordedInput.length = x.recordedInput)
    assignMovie fun m => { m with
      playMode := .playing
      totalInput := UInt64.ofNat (getInputCount m.recordedInput) }
  else
    assignMovie fun m => { m with
      playMode := .recording
      rerecordCount := m.rerecordCount + 1 }

/-- `serialize` out of a save state. -/
def loadState (x : MovieState) : MovieCall PUnit := do
  assignMovie fun m => { m with
    currentByte := x.currentByte
    currentInput := x.currentInput
    initTime := x.initTime
    baseTicks := x.baseTicks }
  let s ← Exec.get
  Exec.require (if x.id = 0 then .closeMovie else .otherMovie) (s.movie.id = x.id)
  Exec.when (s.movie.id ≠ 0) (resume host x)

end Calls

/-! ## Runs -/

/-- The calls on a movie. -/
inductive MovieEvent where
  | startPlayback (movieFile : String)
  | startRecording (movieFile : String) (author : List UInt8) (id programId : UInt64)
  | setReadOnly (readOnly : Bool)
  | handle (args : Input)
  | saveState
  | loadState (x : MovieState)
  | shutdown

/-- What a call does, without what it returns. -/
def MovieEvent.run (host : MovieHost) : MovieEvent → MovieCall PUnit
  | startPlayback movieFile => Core.startPlayback host movieFile
  | startRecording movieFile author id programId =>
      Core.startRecording movieFile author id programId
  | setReadOnly readOnly => Core.setReadOnly readOnly
  | handle args => Core.handle args >>= fun _ => pure ⟨⟩
  | saveState => Core.saveState
  | loadState x => Core.loadState host x
  | shutdown => Core.shutdown host

/-- Only states that were saved before can be loaded. -/
def MovieEvent.Allowed (s : Session) : MovieEvent → Prop
  | loadState x => x ∈ s.states
  | _ => True

/-- What `Shutdown` leaves of a movie. -/
structure Movie.ShutDown (m : Movie) : Prop where
  playMode : m.playMode = .none
  recordedInput : m.recordedInput = []
  currentByte : m.currentByte = 0
  currentInput : m.currentInput = 0
  id : m.id = 0

/-- While a movie is played there is a whole record at the cursor. -/
def Movie.InBounds (m : Movie) : Prop :=
  m.playMode = .playing → m.currentByte + sizeofControllerState ≤ m.recordedInput.length

/-- The mode, the cursor and the input are the same. -/
def Movie.SameCursor (m m' : Movie) : Prop :=
  m'.playMode = m.playMode ∧ m'.currentByte = m.currentByte ∧
    m'.currentInput = m.currentInput ∧ m'.recordedInput = m.recordedInput

/-- What every call is to do: keep the cursor in bounds, and leave it alone when it throws. -/
def MovieEvent.Right (host : MovieHost) (s : Session) (e : MovieEvent) : Prop :=
  (e.run host).Post s (fun _ s' => s'.movie.InBounds)
    (fun _ s' => s'.movie.InBounds ∧ s.movie.SameCursor s'.movie) (fun _ => False)

/-! ## When a call is right -/

/-- The input of the state is a part of what is loaded, and not all of it. -/
def Movie.Holds (m : Movie) (x : MovieState) : Prop :=
  x.recordedInput.length < m.recordedInput.length ∧
    m.recordedInput.take x.recordedInput.length = x.recordedInput

/-- Loading the state throws. -/
def Movie.Refuses (m : Movie) (x : MovieState) : Prop :=
  m.id ≠ x.id ∨ m.id ≠ 0 ∧ x.postMovie = false ∧ m.readOnly = true ∧ ¬ m.Holds x

/-- Loading the state goes on playing, from what is loaded now. -/
def Movie.Replays (m : Movie) (x : MovieState) : Prop :=
  ¬ m.Refuses x ∧ if m.id = 0 then m.playMode = .playing
    else x.postMovie = false ∧ m.readOnly = true

/-- A state that is refused stands where the movie stands, and a state that is played from has a
whole record ahead of it. -/
def Movie.MeetsState (m : Movie) (x : MovieState) : Prop :=
  (m.Refuses x → x.currentByte = m.currentByte ∧ x.currentInput = m.currentInput) ∧
    (m.Replays x → x.currentByte + sizeofControllerState ≤ m.recordedInput.length)

/-- The condition under which a call is right. A file that is played holds a whole record. -/
def MovieEvent.Meets (s : Session) : MovieEvent → Prop
  | startPlayback movieFile => ∀ file, s.files movieFile = some file →
      sizeofCTMHeader < file.length → file.take 4 = headerMagicBytes →
        sizeofCTMHeader + sizeofControllerState ≤ file.length
  | loadState x => s.movie.MeetsState x
  | _ => True

section Rules

variable {host : MovieHost} {s : Session} {Q : PUnit → Session → Prop}
  {E : MovieError → Session → Prop} {F : MovieFault → Prop}

@[simp] theorem post_assignMovie (f : Movie → Movie) :
    (assignMovie f).Post s Q E F ↔ Q ⟨⟩ { s with movie := f s.movie } := Iff.rfl

@[simp] theorem post_saveMovie :
    (saveMovie host).Post s Q E F ↔ Q ⟨⟩ { s with files := s.filesSaved host } := Iff.rfl

theorem validateHeader_ne_invalid (header : CTMHeader) :
    validateHeader host header ≠ .invalid ↔ header.filetype = headerMagicBytes := by
  unfold validateHeader
  split
  next hne => simp [Ne.symm hne]
  next heq => split <;> simp [(not_not.mp heq).symm]

theorem startPlayback_right_iff (movieFile : String) (h : s.movie.InBounds) :
    (MovieEvent.startPlayback movieFile).Right host s ↔
      (MovieEvent.startPlayback movieFile).Meets s := by
  unfold MovieEvent.Right MovieEvent.run MovieEvent.Meets startPlayback
  rw [post_bind, post_get]
  cases hfile : s.files movieFile with
  | none => exact iff_of_true h fun file hsome => by simp [hfile] at hsome
  | some file =>
      have hmagic : (CTMHeader.read file).filetype = file.take 4 := rfl
      have hbounds : (s.movie.playFile movieFile file).InBounds ↔
          sizeofControllerState ≤ file.length - sizeofCTMHeader := by
        simp [Movie.InBounds, Movie.playFile]
      simp only [hfile, Option.some.injEq, forall_eq']
      rw [post_when, post_assignMovie, validateHeader_ne_invalid, hmagic, hbounds]
      constructor
      · intro hpost hsize hvalid
        have hlength := hpost.1 ⟨hsize, hvalid⟩
        omega
      · intro hmeets
        refine ⟨fun hvalid => ?_, fun _ => h⟩
        have hlength := hmeets hvalid.1 hvalid.2
        omega

theorem handle_right (args : Input) (h : s.movie.InBounds) :
    (MovieEvent.handle args).Right host s := by
  unfold MovieEvent.Right MovieEvent.run handle
  rw [post_bind, post_bind, post_get]
  cases hmode : s.movie.playMode with
  | playing =>
      have hbound := h hmode
      simp only [playInput, checkInputEnd, post_bind, Exec.post_assert, post_get,
        post_assignMovie, Exec.post_pure]
      refine ⟨fun _ => ?_, fun hnot => hnot hbound⟩
      split
      next hend =>
        intro hplaying
        contradiction
      next hmore => exact fun _ => not_lt.mp hmore
  | recording =>
      simp only [recordInput, post_bind, post_assignMovie, Exec.post_pure]
      intro hplaying
      rw [hmode] at hplaying
      contradiction
  | none => exact h
  | movieFinished => exact h

theorem sameCursor_iff {x : MovieState} {m' : Movie} (hmode : m'.playMode = s.movie.playMode)
    (hbyte : m'.currentByte = x.currentByte) (hinput : m'.currentInput = x.currentInput)
    (hrecorded : m'.recordedInput = s.movie.recordedInput) (h : s.movie.InBounds) :
    (m'.InBounds ∧ s.movie.SameCursor m') ↔
      (x.currentByte = s.movie.currentByte ∧ x.currentInput = s.movie.currentInput) := by
  unfold Movie.InBounds Movie.SameCursor
  rw [hmode, hbyte, hinput, hrecorded]
  constructor
  · rintro ⟨-, -, hcursor, hcount, -⟩
    exact ⟨hcursor, hcount⟩
  · rintro ⟨hcursor, hcount⟩
    rw [hcursor]
    exact ⟨h, rfl, rfl, hcount, rfl⟩

/-- The movie as it is while a state is checked. -/
def Movie.checking (m : Movie) (x : MovieState) : Movie :=
  { m with
    currentByte := x.currentByte
    currentInput := x.currentInput
    initTime := x.initTime
    baseTicks := x.baseTicks }

/-- In read-only mode nothing is taken over from the state. -/
theorem resume_readOnly {x : MovieState} (hpost : x.postMovie = false)
    (hreadOnly : s.movie.readOnly = true) :
    (resume host x).Post s
      (fun _ s' => s.movie.Holds x ∧ s'.movie = { s.movie with
        playMode := .playing
        totalInput := UInt64.ofNat (getInputCount s.movie.recordedInput) })
      (fun _ s' => ¬ s.movie.Holds x ∧ s'.movie = s.movie) (fun _ => False) := by
  unfold resume
  rw [post_bind, post_assignMovie, if_pos hreadOnly, post_bind, post_get,
    if_neg (by simp [hpost]), if_pos hreadOnly]
  have hchecks : ∀ files, (Exec.require MovieError.futureEvent
        (x.recordedInput.length < s.movie.recordedInput.length) >>= fun _ =>
      Exec.require MovieError.timelineMismatch
        (s.movie.recordedInput.take x.recordedInput.length = x.recordedInput) >>= fun _ =>
      assignMovie fun m => { m with
        playMode := .playing
        totalInput := UInt64.ofNat (getInputCount m.recordedInput) } : MovieCall PUnit).Post
      { s with files }
      (fun _ s' => s.movie.Holds x ∧ s'.movie = { s.movie with
        playMode := .playing
        totalInput := UInt64.ofNat (getInputCount s.movie.recordedInput) })
      (fun _ s' => ¬ s.movie.Holds x ∧ s'.movie = s.movie) (fun _ => False) := by
    intro files
    simp only [post_bind, Exec.post_require, post_assignMovie]
    refine ⟨fun hlt => ⟨fun htake => ⟨⟨hlt, htake⟩, trivial⟩,
      fun htake => ⟨fun hfit => ?_, trivial⟩⟩, fun hlt => ⟨fun hfit => ?_, trivial⟩⟩
    · exact htake hfit.2
    · exact hlt hfit.1
  rw [post_bind, post_when, post_saveMovie]
  exact ⟨fun _ => hchecks _, fun _ => hchecks s.files⟩

theorem resume_otherwise {x : MovieState} (h : x.postMovie = true ∨ s.movie.readOnly = false) :
    (resume host x).Post s (fun _ s' => s'.movie.playMode ≠ .playing)
      (fun _ _ => False) (fun _ => False) := by
  unfold resume
  simp only [post_bind, post_assignMovie, post_get, Exec.post_ite]
  refine ⟨fun _ => by simp, fun hpost => ⟨fun hreadOnly => ?_, fun _ => by simp⟩⟩
  rcases h with h | h
  · exact absurd h hpost
  · simp [h] at hreadOnly

theorem not_refuses_of_otherwise {m : Movie} {x : MovieState} (hid : m.id = x.id)
    (h : m.id = 0 ∨ x.postMovie = true ∨ m.readOnly = false) : ¬ m.Refuses x := by
  rintro (hne | ⟨hzero, hpost, hreadOnly, -⟩)
  · exact hne hid
  · simp [hzero, hpost, hreadOnly] at h

/-- Going on from a state in read-only mode is right if the state is not refused and has a record
ahead of it, or is refused and stands where the movie stands. -/
theorem resume_right_iff {x : MovieState} {s₀ : Session} (hpost : x.postMovie = false)
    (hreadOnly : s.movie.readOnly = true) (hs : s.movie = s₀.movie.checking x)
    (h : s₀.movie.InBounds) :
    (resume host x).Post s (fun _ s' => s'.movie.InBounds)
      (fun _ s' => s'.movie.InBounds ∧ s₀.movie.SameCursor s'.movie) (fun _ => False) ↔
    (¬ s₀.movie.Holds x →
      x.currentByte = s₀.movie.currentByte ∧ x.currentInput = s₀.movie.currentInput) ∧
    (s₀.movie.Holds x →
      x.currentByte + sizeofControllerState ≤ s₀.movie.recordedInput.length) := by
  have hholds : s.movie.Holds x ↔ s₀.movie.Holds x := by
    rw [hs]
    rfl
  have hresume := @resume_readOnly host s x hpost hreadOnly
  unfold Exec.Post
  cases hx : resume host x s with
  | value a s' =>
      obtain ⟨hfit, hmovie⟩ := hresume.value hx
      rw [hholds] at hfit
      simp only [hfit, not_true_eq_false, false_implies, true_implies, true_and, hmovie, hs]
      simp [Movie.InBounds, Movie.checking]
  | error e s' =>
      obtain ⟨hunfit, hmovie⟩ := hresume.error hx
      rw [hholds] at hunfit
      simp only [hunfit, not_false_eq_true, false_implies, true_implies, and_true, hmovie, hs]
      exact sameCursor_iff rfl rfl rfl rfl h
  | fault f => exact (hresume.fault hx).elim

theorem loadState_right_iff (x : MovieState) (h : s.movie.InBounds) :
    (MovieEvent.loadState x).Right host s ↔ s.movie.MeetsState x := by
  unfold MovieEvent.Right MovieEvent.run loadState
  rw [post_bind, post_assignMovie, post_bind, post_get, post_bind,
    Exec.post_require, post_when]
  change (s.movie.id = x.id → (s.movie.id ≠ 0 → _) ∧ (¬ s.movie.id ≠ 0 → _)) ∧
    (s.movie.id ≠ x.id → _) ↔ _
  by_cases hid : s.movie.id = x.id
  · by_cases hzero : s.movie.id = 0
    · -- No movie is loaded: only the cursor is taken over.
      have hrefuses := not_refuses_of_otherwise hid (.inl hzero)
      have hreplays : s.movie.Replays x ↔ s.movie.playMode = .playing := by
        simp [Movie.Replays, hrefuses, hzero]
      constructor
      · intro hright
        exact ⟨fun hr => absurd hr hrefuses,
          fun hr => (hright.1 hid).2 (not_not.mpr hzero) (hreplays.mp hr)⟩
      · intro hmeets
        exact ⟨fun _ => ⟨fun hne => absurd hzero hne,
          fun _ hplaying => hmeets.2 (hreplays.mpr hplaying)⟩, fun hne => absurd hid hne⟩
    · by_cases hother : x.postMovie = true ∨ s.movie.readOnly = false
      · have hrefuses := not_refuses_of_otherwise hid (.inr hother)
        have hreplays : ¬ s.movie.Replays x := by
          rintro ⟨-, hreplays⟩
          rw [if_neg hzero] at hreplays
          simp [hreplays.1, hreplays.2] at hother
        apply iff_of_true
        · refine ⟨fun _ => ⟨fun _ => ?_, fun hne => absurd hzero hne⟩, fun hne => absurd hid hne⟩
          refine (resume_otherwise (s := { s with movie := s.movie.checking x }) hother).mono ?_
            (fun _ _ h => h.elim) (fun _ h => h)
          exact fun _ s' hmode hplaying => absurd hplaying hmode
        · exact ⟨fun hr => absurd hr hrefuses, fun hr => absurd hr hreplays⟩
      · rw [not_or, Bool.not_eq_true, Bool.not_eq_false] at hother
        have hrefuses : s.movie.Refuses x ↔ ¬ s.movie.Holds x := by
          constructor
          · rintro (hne | ⟨-, -, -, hunfit⟩)
            · exact absurd hid hne
            · exact hunfit
          · exact fun hunfit => .inr ⟨hzero, hother.1, hother.2, hunfit⟩
        have hreplays : s.movie.Replays x ↔ s.movie.Holds x := by
          unfold Movie.Replays
          rw [hrefuses, not_not, if_neg hzero]
          exact and_iff_left hother
        have hresume := @resume_right_iff host { s with movie := s.movie.checking x } x s
          hother.1 hother.2 rfl h
        rw [← hrefuses, ← hreplays] at hresume
        constructor
        · exact fun hright => hresume.mp ((hright.1 hid).1 hzero)
        · exact fun hmeets => ⟨fun _ => ⟨fun _ => hresume.mpr hmeets,
            fun hne => absurd hzero hne⟩, fun hne => absurd hid hne⟩
  · have hrefuses : s.movie.Refuses x := .inl hid
    have hreplays : ¬ s.movie.Replays x := fun hreplays => hreplays.1 hrefuses
    have hcursor := @sameCursor_iff s x (s.movie.checking x) rfl rfl rfl rfl h
    constructor
    · exact fun hright => ⟨fun _ => hcursor.mp (hright.2 hid), fun hr => absurd hr hreplays⟩
    · exact fun hmeets => ⟨fun heq => absurd heq hid, fun _ => hcursor.mpr (hmeets.1 hrefuses)⟩

/-- A call is right exactly if it meets its condition. -/
theorem right_iff (e : MovieEvent) (h : s.movie.InBounds) : e.Right host s ↔ e.Meets s := by
  cases e with
  | startPlayback movieFile => exact startPlayback_right_iff movieFile h
  | loadState x => exact loadState_right_iff x h
  | handle args => exact iff_of_true (handle_right args h) trivial
  | startRecording movieFile author id programId =>
      apply iff_of_true _ trivial
      intro hplaying
      contradiction
  | setReadOnly readOnly => exact iff_of_true h trivial
  | saveState => exact iff_of_true h trivial
  | shutdown =>
      apply iff_of_true _ trivial
      unfold MovieEvent.Right MovieEvent.run shutdown
      simp [Movie.InBounds]

end Rules

/-- A movie that is shut down, and no states yet. -/
def Session.Fresh (s : Session) : Prop := s.movie.ShutDown ∧ s.states = []

/-- One call that meets its condition, whatever it returns. -/
def MovieStep (host : MovieHost) (s s' : Session) : Prop :=
  ∃ e : MovieEvent, e.Allowed s ∧ e.Meets s ∧ Moves (e.run host) s s'

/-- In every run whose calls all meet their conditions, the cursor is in bounds in every state
reached, no assertion fails, and a load that throws leaves mode, cursor and input alone. -/
theorem run_inBounds {host : MovieHost} {s : Session}
    (h : Reachable Session.Fresh (MovieStep host) s) :
    s.movie.InBounds ∧ ∀ e : MovieEvent, e.Allowed s → e.Meets s → e.Right host s := by
  have hbounds : s.movie.InBounds := by
    apply h.invariant (I := fun s => s.movie.InBounds)
    · intro s hfresh hplaying
      rw [hfresh.1.playMode] at hplaying
      contradiction
    · rintro s s' hs ⟨e, -, hmeets, hmoves⟩
      have hright : e.Right host s := (right_iff e hs).mpr hmeets
      exact (hright.mono (fun _ _ h => h) (fun _ _ h => h.1) (fun _ h => h)).moves hmoves
  exact ⟨hbounds, fun e _ hmeets => (right_iff e hbounds).mpr hmeets⟩

/-! ### Two runs -/

/-- A host that can write every file. -/
def exampleHost : MovieHost where
  revision := List.replicate 20 0
  length_revision := rfl
  writable := fun _ => true

/-- A movie file with so many bytes of input, all of them zero. -/
def zeroMovie (n : Nat) : List UInt8 := headerMagicBytes ++ List.replicate (252 + n) 0

/-- A movie that is shut down, next to a file. -/
def sessionWith (file : List UInt8) : Session := { movie := {}, files := fun _ => some file }

theorem fresh_sessionWith (file : List UInt8) : (sessionWith file).Fresh :=
  ⟨⟨rfl, rfl, rfl, rfl, rfl⟩, rfl⟩

/-- The session after a call. -/
def Session.after (e : MovieEvent) (s : Session) : Session := (e.run exampleHost).after s

/-- A file with one record is played up to its end. -/
theorem run_inBounds_oneRecord :
    ((sessionWith (zeroMovie 7)).after (.startPlayback "movie")).movie.InBounds ∧
      ((sessionWith (zeroMovie 7)).after (.startPlayback "movie")).movie.playMode = .playing := by
  have hmeets : (MovieEvent.startPlayback "movie").Meets (sessionWith (zeroMovie 7)) := by
    rintro file hfile - -
    obtain rfl := Option.some.inj hfile
    decide +kernel
  exact ⟨(@run_inBounds exampleHost _ (.step (.start (fresh_sessionWith _))
    ⟨.startPlayback "movie", trivial, hmeets, moves_after (by decide +kernel)⟩)).1,
    by decide +kernel⟩

/-- One call, whatever its condition. -/
def MovieCallStep (host : MovieHost) (s s' : Session) : Prop :=
  ∃ e : MovieEvent, e.Allowed s ∧ Moves (e.run host) s s'

/-- A file with one byte of input is played, and the first input fails the assertion. And a state
that was saved before a recording started is refused during it, but takes the cursor back. -/
theorem cursor_not_kept :
    (∃ s, Reachable Session.Fresh (MovieCallStep exampleHost) s ∧
      (handle (.touch 0 0 0) s).fault? = some .assertFailed) ∧
    ∃ s, Reachable Session.Fresh (MovieCallStep exampleHost) s ∧ ∃ x ∈ s.states,
      (loadState exampleHost x s).code? = some .closeMovie ∧
        ((loadState exampleHost x).after s).movie.currentByte ≠ s.movie.currentByte := by
  have hstep : ∀ {s : Session} (e : MovieEvent), e.Allowed s →
      ((e.run exampleHost) s).state?.isSome = true →
      MovieCallStep exampleHost s (s.after e) :=
    fun e hallowed hsome => ⟨e, hallowed, moves_after hsome⟩
  constructor
  · exact ⟨_, .step (.start (fresh_sessionWith (zeroMovie 1)))
      (hstep (.startPlayback "movie") trivial (by decide +kernel)), by decide +kernel⟩
  · exact ⟨_, .step (.step (.step (.start (fresh_sessionWith []))
      (hstep .saveState trivial (by decide)))
      (hstep (.startRecording "movie" [] 1 0) trivial (by decide)))
      (hstep (.handle (.touch 0 0 0)) trivial (by decide)),
      Movie.saved {}, by decide, by decide, by decide⟩

end Cytrus.Core
