import Mathlib
import Cytrus.Core.Movie
import Cytrus.Support.Slices

/-!
# Timelines of a movie

Loading a save state while a movie is recorded goes back to where it was made,
and the inputs after that are gone. The movie that is saved at the end holds the
inputs of the timeline that is left, and playing it returns them.

## Main results

* `CTMHeader.read_bytes`: a header is read back from a file
* `Recording.run`: the movie refines the timeline, in every run
* `record_then_play`: what is saved is the timeline, and what is played is what was saved
-/

namespace Cytrus.Core

open Support
open Exec (post_bind post_get post_when post_pure)

/-! ## The header of a file -/

namespace CTMHeader

/-- The arrays of a header have their sizes. -/
structure Sized (header : CTMHeader) : Prop where
  filetype : header.filetype.length = 4
  revision : header.revision.length = 20
  author : header.author.length = 32

variable {header : CTMHeader} {rest : List UInt8}

theorem length_bytes (h : header.Sized) : header.bytes.length = sizeofCTMHeader := by
  simp only [bytes, List.length_append, length_toBytes, List.length_replicate, h.filetype,
    h.revision, h.author]
  rfl

theorem read_bytes (h : header.Sized) : read (header.bytes ++ rest) = header := by
  have hfile : header.bytes ++ rest = header.filetype ++ (toBytes 8 header.programId.toNat ++
      (header.revision ++ (toBytes 8 header.clockInitTime.toNat ++ (toBytes 8 header.id.toNat ++
      (header.author ++ (toBytes 4 header.rerecordCount.toNat ++
      (toBytes 8 header.inputCount.toNat ++ (toBytes 8 header.timingBaseTicks.toUInt64.toNat ++
      (List.replicate 156 0 ++ rest))))))))) := by
    simp only [bytes, List.append_assoc]
  -- What is left of the file after each member.
  have hprogramId := drop_next (i := 0) (j := 4) hfile h.filetype rfl
  have hrevision := drop_next (j := 12) hprogramId (length_toBytes _ _) rfl
  have hclockInitTime := drop_next (j := 32) hrevision h.revision rfl
  have hid := drop_next (j := 40) hclockInitTime (length_toBytes _ _) rfl
  have hauthor := drop_next (j := 48) hid (length_toBytes _ _) rfl
  have hrerecordCount := drop_next (j := 80) hauthor h.author rfl
  have hinputCount := drop_next (j := 84) hrerecordCount (length_toBytes _ _) rfl
  have htiming := drop_next (j := 92) hinputCount (length_toBytes _ _) rfl
  have hu64 : ∀ {i : Nat} {x : UInt64} {back : List UInt8},
      (header.bytes ++ rest).drop i = toBytes 8 x.toNat ++ back →
        UInt64.ofNat (fieldAt (header.bytes ++ rest) i 8) = x := by
    intro i x back hdrop
    rw [fieldAt_toBytes (by rw [hdrop, List.take_left' (length_toBytes _ _)]) x.toNat_lt,
      UInt64.ofNat_toNat]
  have hu32 : UInt32.ofNat (fieldAt (header.bytes ++ rest) 80 4) = header.rerecordCount := by
    rw [fieldAt_toBytes (by rw [hrerecordCount, List.take_left' (length_toBytes _ _)])
      header.rerecordCount.toNat_lt, UInt32.ofNat_toNat]
  unfold read
  rw [hu64 hprogramId, hu64 hclockInitTime, hu64 hid, hu64 hinputCount, hu64 htiming, hu32,
    hrevision, hauthor, List.take_left' h.revision, List.take_left' h.author, hfile,
    List.take_left' h.filetype, Int64.toInt64_toUInt64]

end CTMHeader

theorem Movie.sized_header (host : MovieHost) (m : Movie) : (m.header host).Sized where
  filetype := rfl
  revision := host.length_revision
  author := by
    simp only [Movie.header, List.length_append, List.length_take, List.length_replicate]
    omega

/-! ## The timeline -/

/-- What happens between the start of a recording and its end. A state is loaded by its number
among those that were saved since the start; loading one that there is not does nothing. -/
inductive TimelineEvent where
  | handle (args : Input)
  | saveState
  | loadState (k : Nat)

/-- The inputs given so far, and those at the time of each state that was saved. -/
structure Timeline where
  inputs : List Input := []
  snapshots : List (List Input) := []

namespace Timeline

def step (t : Timeline) : TimelineEvent → Timeline
  | .handle args => { t with inputs := t.inputs ++ [args] }
  | .saveState => { t with snapshots := t.snapshots ++ [t.inputs] }
  | .loadState k => { t with inputs := t.snapshots[k]?.getD t.inputs }

/-- The timeline that is left after some events. -/
def run (t : Timeline) (events : List TimelineEvent) : Timeline := events.foldl step t

end Timeline

/-- The event as a call, where `first` states were known before. -/
def TimelineEvent.run (host : MovieHost) (first : Nat) : TimelineEvent → MovieCall PUnit
  | handle args => Core.handle args >>= fun _ => pure ⟨⟩
  | saveState => Core.saveState
  | loadState k => do
      let s ← Exec.get
      match (s.states.drop first)[k]? with
      | some x => Core.loadState host x
      | none => pure ⟨⟩

/-- The records of some inputs. -/
def encoding (inputs : List Input) : List UInt8 := inputs.flatMap Input.state

@[simp] theorem encoding_append (front rest : List Input) :
    encoding (front ++ rest) = encoding front ++ encoding rest :=
  List.flatMap_append

theorem encoding_cons (input : Input) (rest : List Input) :
    encoding (input :: rest) = input.state ++ encoding rest := rfl

theorem encoding_singleton (input : Input) : encoding [input] = input.state := by
  simp [encoding]

theorem length_encoding (inputs : List Input) :
    (encoding inputs).length = sizeofControllerState * inputs.length :=
  length_flatMap_width Input.length_state

theorem getInputCount_encoding (inputs : List Input) :
    getInputCount (encoding inputs) = inputs.countP fun input => input.IsPad := by
  induction inputs with
  | nil => rfl
  | cons input rest ih =>
      rw [encoding_cons, List.countP_cons, ← ih, Nat.add_comm]
      cases input <;> rfl

/-- The state was saved after some inputs of the movie. -/
structure MovieState.SavedAfter (id : UInt64) (x : MovieState) (inputs : List Input) : Prop where
  recordedInput : x.recordedInput = encoding inputs
  currentByte : x.currentByte = (encoding inputs).length
  id_eq : x.id = id
  postMovie : x.postMovie = false

/-- The session records the timeline: the cursor is at the end of the input, and every state that
was saved since the start holds the inputs at that time. -/
structure Recording (first : Nat) (movieFile : String) (id : UInt64) (t : Timeline)
    (s : Session) : Prop where
  playMode : s.movie.playMode = .recording
  readOnly : s.movie.readOnly = false
  recordMovieFile : s.movie.recordMovieFile = movieFile
  id_eq : s.movie.id = id
  recordedInput : s.movie.recordedInput = encoding t.inputs
  currentByte : s.movie.currentByte = (encoding t.inputs).length
  known : first ≤ s.states.length
  states : List.Forall₂ (MovieState.SavedAfter id) (s.states.drop first) t.snapshots

section Recording

variable {host : MovieHost} {first : Nat} {movieFile : String} {id : UInt64} {t : Timeline}
  {s : Session}

theorem Recording.handle (h : Recording first movieFile id t s) (args : Input) :
    (Core.handle args).Post s
      (fun played s' => played = args ∧ Recording first movieFile id (t.step (.handle args)) s')
      (fun _ _ => False) (fun _ => False) := by
  unfold Core.handle
  rw [post_bind, post_get]
  simp only [h.playMode, recordInput, post_bind, post_assignMovie, post_pure]
  have hfront : (resized s.movie.recordedInput (s.movie.currentByte + sizeofControllerState) 0).take
      s.movie.currentByte = encoding t.inputs := by
    rw [h.recordedInput, h.currentByte, resized_of_le (Nat.le_add_right _ _), List.take_left]
  refine ⟨trivial, ?_⟩
  constructor
  case recordedInput => simp [hfront, Timeline.step, encoding_singleton]
  case currentByte => simp [h.currentByte, Timeline.step, encoding_singleton, Input.length_state]
  case playMode => rfl
  case readOnly => exact h.readOnly
  case recordMovieFile => exact h.recordMovieFile
  case id_eq => exact h.id_eq
  case known => exact h.known
  case states => exact h.states

theorem Recording.savedAfter (h : Recording first movieFile id t s) :
    s.movie.saved.SavedAfter id t.inputs where
  recordedInput := h.recordedInput
  currentByte := h.currentByte
  id_eq := h.id_eq
  postMovie := by simp [Movie.saved, h.playMode]

theorem Recording.saveState (h : Recording first movieFile id t s) :
    (Core.saveState).Post s (fun _ s' => Recording first movieFile id (t.step .saveState) s')
      (fun _ _ => False) (fun _ => False) := by
  unfold Core.saveState
  rw [Exec.post_modify]
  constructor
  case states =>
    rw [List.drop_append_of_le_length h.known]
    exact List.rel_append h.states (.cons h.savedAfter .nil)
  case known => simpa using h.known.trans (Nat.le_succ _)
  all_goals first
    | exact h.playMode
    | exact h.readOnly
    | exact h.recordMovieFile
    | exact h.id_eq
    | exact h.recordedInput
    | exact h.currentByte

theorem Recording.loadState (h : Recording first movieFile id t s) (hid : id ≠ 0) {x : MovieState}
    {inputs : List Input} (hx : x.SavedAfter id inputs) :
    (Core.loadState host x).Post s (fun _ s' => Recording first movieFile id { t with inputs } s')
      (fun _ _ => False) (fun _ => False) := by
  have hsame : s.movie.id = x.id := h.id_eq.trans hx.id_eq.symm
  have hid' : s.movie.id ≠ 0 := h.id_eq ▸ hid
  have hpost : ¬ x.postMovie = true := by simp [hx.postMovie]
  have hreadOnly : ¬ s.movie.readOnly = true := by simp [h.readOnly]
  unfold Core.loadState resume
  simp only [post_bind, post_assignMovie, post_get, Exec.post_require, post_when,
    Exec.post_ite, if_neg hreadOnly]
  refine ⟨fun _ => ⟨fun _ => ⟨fun h => absurd h hpost, fun _ =>
    ⟨fun h => absurd h hreadOnly, fun _ => ?_⟩⟩, fun hzero => absurd hid' hzero⟩,
    fun hother => absurd hsame hother⟩
  constructor
  case playMode => rfl
  case recordedInput => exact hx.recordedInput
  case currentByte => exact hx.currentByte
  case readOnly => exact h.readOnly
  case recordMovieFile => exact h.recordMovieFile
  case id_eq => exact h.id_eq
  case known => exact h.known
  case states => exact h.states

theorem Recording.event (h : Recording first movieFile id t s) (hid : id ≠ 0)
    (e : TimelineEvent) :
    (e.run host first).Post s (fun _ s' => Recording first movieFile id (t.step e) s')
      (fun _ _ => False) (fun _ => False) := by
  cases e with
  | handle args =>
      unfold TimelineEvent.run
      rw [post_bind]
      exact (h.handle args).mono (fun _ _ hs => hs.2) (fun _ _ hs => hs) (fun _ hs => hs)
  | saveState => exact h.saveState
  | loadState k =>
      unfold TimelineEvent.run
      rw [post_bind, post_get]
      cases hx : (s.states.drop first)[k]? with
      | none =>
          have hnone : t.snapshots[k]? = none := by
            rw [List.getElem?_eq_none_iff] at hx ⊢
            rwa [← h.states.length_eq]
          simp only [post_pure, Timeline.step, hnone, Option.getD_none]
          exact h
      | some x =>
          obtain ⟨hk, hget⟩ := List.getElem?_eq_some_iff.mp hx
          have hk' : k < t.snapshots.length := h.states.length_eq ▸ hk
          have hsaved := h.states.get hk hk'
          rw [List.get_eq_getElem, List.get_eq_getElem, hget] at hsaved
          simp only [Timeline.step, List.getElem?_eq_getElem hk', Option.getD_some]
          exact h.loadState hid hsaved

/-- In every run of a recording the movie records the timeline. -/
theorem Recording.run (h : Recording first movieFile id t s) (hid : id ≠ 0)
    (events : List TimelineEvent) :
    (Exec.forEach events (TimelineEvent.run host first)).Post s
      (fun _ s' => Recording first movieFile id (t.run events) s')
      (fun _ _ => False) (fun _ => False) := by
  induction events generalizing t s with
  | nil => exact h
  | cons e rest ih =>
      rw [Exec.forEach, post_bind]
      exact (h.event hid e).mono (fun _ s' hs => ih hs) (fun _ _ hs => hs) (fun _ hs => hs)

end Recording

/-! ## Playing -/

/-- The inputs that a file of a movie is played to. -/
def playAll : List Input → MovieCall (List Input)
  | [] => pure []
  | args :: rest => do
      let played ← handle args
      let others ← playAll rest
      pure (played :: others)

/-- The session plays a movie, with some inputs behind the cursor and some ahead of it. -/
structure Playing (before ahead : List Input) (s : Session) : Prop where
  playMode : s.movie.playMode = if ahead = [] then .movieFinished else .playing
  recordedInput : s.movie.recordedInput = encoding (before ++ ahead)
  currentByte : s.movie.currentByte = (encoding before).length

section Playing

variable {before ahead rest : List Input} {input args : Input} {s : Session}

theorem Playing.handle (h : Playing before (input :: ahead) s) (hkind : args.type = input.type) :
    (Core.handle args).Post s
      (fun played s' => played = input ∧ Playing (before ++ [input]) ahead s')
      (fun _ _ => False) (fun _ => False) := by
  have hmode : s.movie.playMode = .playing := h.playMode.trans (if_neg (List.cons_ne_nil _ _))
  have hlength : s.movie.recordedInput.length =
      s.movie.currentByte + sizeofControllerState + (encoding ahead).length := by
    rw [h.recordedInput, h.currentByte, encoding_append, encoding_cons, List.length_append,
      List.length_append, Input.length_state, Nat.add_assoc]
  have hstate : (s.movie.recordedInput.drop s.movie.currentByte).take sizeofControllerState =
      input.state := by
    rw [h.recordedInput, h.currentByte, encoding_append, List.drop_left, encoding_cons,
      List.take_left' input.length_state]
  have hnext : s.movie.currentByte + sizeofControllerState =
      (encoding (before ++ [input])).length := by
    rw [h.currentByte, encoding_append, encoding_singleton, List.length_append,
      input.length_state]
  unfold Core.handle
  rw [post_bind, post_get]
  simp only [hmode, playInput, checkInputEnd, post_bind, Exec.post_assert, post_get,
    post_assignMovie, post_pure, hstate, Input.play_state hkind]
  refine ⟨fun _ => ⟨trivial, ?_⟩, fun hshort => hshort (by omega)⟩
  have hend : s.movie.recordedInput.length <
      s.movie.currentByte + sizeofControllerState + sizeofControllerState ↔ ahead = [] := by
    rw [hlength, Nat.add_lt_add_iff_left, length_encoding, sizeofControllerState]
    cases ahead with
    | nil => simp
    | cons next later => simp
  constructor
  case playMode =>
    split
    next hnil => exact (if_pos (hend.mp hnil)).symm
    next hsome => exact (if_neg fun hnil => hsome (hend.mpr hnil)).symm
  case recordedInput => split <;> simp [h.recordedInput]
  case currentByte => split <;> exact hnext

theorem Playing.playAll {calls played : List Input} (h : Playing before (played ++ rest) s)
    (hkinds : calls.map Input.type = played.map Input.type) :
    (Core.playAll calls).Post s
      (fun returned s' => returned = played ∧ Playing (before ++ played) rest s')
      (fun _ _ => False) (fun _ => False) := by
  induction played generalizing before calls s with
  | nil =>
      obtain rfl := List.map_eq_nil_iff.mp hkinds
      rw [List.append_nil]
      exact ⟨rfl, h⟩
  | cons input played ih =>
      obtain ⟨args, calls, rfl, hkind, hothers⟩ := List.map_eq_cons_iff.mp hkinds
      rw [Core.playAll, post_bind]
      refine (h.handle hkind).mono ?_ (fun _ _ hs => hs) (fun _ hs => hs)
      rintro _ s' ⟨rfl, hplaying⟩
      rw [post_bind]
      refine (ih hplaying hothers).mono ?_ (fun _ _ hs => hs) (fun _ hs => hs)
      rintro _ s'' ⟨rfl, hplayed⟩
      rw [List.append_assoc, List.singleton_append] at hplayed
      exact ⟨rfl, hplayed⟩

end Playing

/-! ## Recording, then playing -/

/-- A recording with the events in it. -/
def record (host : MovieHost) (movieFile : String) (author : List UInt8) (id programId : UInt64)
    (events : List TimelineEvent) : MovieCall PUnit := do
  startRecording movieFile author id programId
  let s ← Exec.get
  Exec.forEach events (TimelineEvent.run host s.states.length)

/-- The file counts the inputs of buttons in its header. Playing it returns the inputs to calls of
the same kinds, is not over before the last of them, and is over after it. -/
structure PlaysBack (host : MovieHost) (movieFile : String) (inputs : List Input)
    (file : List UInt8) : Prop where
  inputCount : (CTMHeader.read file).inputCount =
    UInt64.ofNat (inputs.countP fun input => input.IsPad)
  played : inputs ≠ [] → ∀ {s : Session} {played rest calls : List Input},
    s.files movieFile = some file → inputs = played ++ rest →
    calls.map Input.type = played.map Input.type →
      ∃ t, (startPlayback host movieFile >>= fun _ => playAll calls) s = .value played t ∧
        t.movie.playMode = if rest = [] then .movieFinished else .playing

section RecordThenPlay

variable (host : MovieHost) (movieFile : String) (author : List UInt8) {s : Session}
  {id : UInt64} (programId : UInt64)

theorem record_post (hdown : s.movie.ShutDown) (hreadOnly : s.movie.readOnly = false)
    (hid : id ≠ 0) (events : List TimelineEvent) :
    (record host movieFile author id programId events).Post s
      (fun _ t => Recording s.states.length movieFile id (Timeline.run {} events) t)
      (fun _ _ => False) (fun _ => False) := by
  unfold record startRecording
  rw [post_bind, post_assignMovie, post_bind, post_get]
  refine Recording.run ?_ hid events
  constructor
  case playMode => rfl
  case readOnly => exact hreadOnly
  case recordMovieFile => rfl
  case id_eq => rfl
  case recordedInput => exact hdown.recordedInput
  case currentByte => exact hdown.currentByte
  case known => exact le_rfl
  case states => simp

theorem Recording.shutdown {movieFile : String} {first : Nat} {t : Timeline}
    (h : Recording first movieFile id t s) :
    (Core.shutdown host).Post s
      (fun _ u => host.writable movieFile = true →
        u.files movieFile = some ((s.movie.header host).bytes ++ encoding t.inputs))
      (fun _ _ => False) (fun _ => False) := by
  unfold Core.shutdown
  rw [post_bind, post_get, post_bind, post_when, post_saveMovie]
  refine ⟨fun _ hwritable => ?_, fun hmode => absurd h.playMode hmode⟩
  change s.filesSaved host movieFile = _
  rw [Session.filesSaved, h.recordMovieFile, if_pos hwritable, Function.update_self,
    h.recordedInput]

theorem startPlayback_post {header : CTMHeader} {inputs : List Input} (hsized : header.Sized)
    (hmagic : header.filetype = headerMagicBytes) (hsome : inputs ≠ [])
    (hfile : s.files movieFile = some (header.bytes ++ encoding inputs)) :
    (startPlayback host movieFile).Post s (fun _ s' => Playing [] inputs s')
      (fun _ _ => False) (fun _ => False) := by
  have hlength : sizeofCTMHeader < (header.bytes ++ encoding inputs).length := by
    rw [List.length_append, CTMHeader.length_bytes hsized, length_encoding]
    have hpos := List.length_pos_iff.mpr hsome
    simp only [sizeofControllerState]
    omega
  unfold startPlayback
  rw [post_bind, post_get]
  simp only [hfile]
  rw [post_when, post_assignMovie, validateHeader_ne_invalid, CTMHeader.read_bytes hsized]
  refine ⟨fun _ => ?_, fun hinvalid => absurd ⟨hlength, hmagic⟩ hinvalid⟩
  constructor
  case playMode => exact (if_neg hsome).symm
  case recordedInput => exact List.drop_left' (CTMHeader.length_bytes hsized)
  case currentByte => rfl

theorem playsBack {header : CTMHeader} {inputs : List Input} (hsized : header.Sized)
    (hmagic : header.filetype = headerMagicBytes)
    (hcount : header.inputCount = UInt64.ofNat (getInputCount (encoding inputs))) :
    PlaysBack host movieFile inputs (header.bytes ++ encoding inputs) where
  inputCount := by rw [CTMHeader.read_bytes hsized, hcount, getInputCount_encoding]
  played := by
    intro hsome s played rest calls hfile hsplit hkinds
    have hplay : (startPlayback host movieFile >>= fun _ => playAll calls).Post s
        (fun returned t => returned = played ∧ Playing ([] ++ played) rest t)
        (fun _ _ => False) (fun _ => False) := by
      rw [post_bind]
      refine (startPlayback_post host movieFile hsized hmagic hsome hfile).mono ?_
        (fun _ _ hs => hs) (fun _ hs => hs)
      intro _ t hplaying
      rw [hsplit] at hplaying
      exact hplaying.playAll hkinds
    obtain ⟨_, t, hvalue, rfl, hplaying⟩ := hplay.exists_value
    exact ⟨t, hvalue, hplaying.playMode⟩

/-- A recording ends with the records of the timeline that is left, and the file that is saved
then plays back its inputs. -/
theorem record_then_play (events : List TimelineEvent) (hdown : s.movie.ShutDown)
    (hreadOnly : s.movie.readOnly = false) (hid : id ≠ 0) :
    ∃ t u, record host movieFile author id programId events s = .value ⟨⟩ t ∧
      t.movie.recordedInput = encoding (Timeline.run {} events).inputs ∧
      Core.shutdown host t = .value ⟨⟩ u ∧
      (host.writable movieFile = true → ∃ file, u.files movieFile = some file ∧
        PlaysBack host movieFile (Timeline.run {} events).inputs file) := by
  obtain ⟨_, t, hrecord, hrecording⟩ :=
    (record_post host movieFile author programId hdown hreadOnly hid events).exists_value
  obtain ⟨_, u, hshutdown, hsaved⟩ := (hrecording.shutdown host).exists_value
  refine ⟨t, u, hrecord, hrecording.recordedInput, hshutdown, fun hwritable =>
    ⟨_, hsaved hwritable, ?_⟩⟩
  apply playsBack host movieFile (t.movie.sized_header host) rfl
  rw [Movie.header, hrecording.recordedInput]

end RecordThenPlay

/-! ### A timeline with a branch -/

/-- The second input disappears when the state before it is loaded. -/
def branchEvents : List TimelineEvent :=
  [.handle (.gyroscope 1 2 3), .saveState, .handle (.irRst true false 4 5), .loadState 0,
    .handle (.accelerometer 6 7 8)]

theorem record_then_play_branch :
    ∃ t, record exampleHost "movie" [] 1 0 branchEvents
        { movie := { readOnly := false }, files := fun _ => none } = .value ⟨⟩ t ∧
      t.movie.recordedInput = encoding [.gyroscope 1 2 3, .accelerometer 6 7 8] := by
  obtain ⟨t, u, hrecord, hinput, -⟩ := @record_then_play exampleHost "movie" []
    { movie := { readOnly := false }, files := fun _ => none } 1 0 branchEvents
    ⟨rfl, rfl, rfl, rfl, rfl⟩ rfl (by decide)
  exact ⟨t, hrecord, hinput⟩

end Cytrus.Core
