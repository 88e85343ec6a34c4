import Mathlib.Tactic

/-!
# Streams of frames

A decoder reads a frame piece by piece. It is fed with chunks of any size, and
stops where the frame ends.

## Main results

* `feedAll_eq_some_iff`: feeding bytes succeeds if and only if they begin with a frame
-/

namespace Cytrus.Support.FrameStream

variable {α β : Type*}

/-- What one call of a decoder gives: how much it read, what it wrote, and whether the frame ended. -/
structure Piece (σ β : Type*) where
  state : σ
  read : Nat
  output : List β
  done : Bool

/-- A decoder, which gets on with every call. -/
structure Decoder (α β : Type*) where
  State : Type
  created : State
  step : State → List α → Option (Piece State β)
  /-- How often the state can write without reading. -/
  pending : State → Nat
  progress : ∀ {s input p}, input ≠ [] → step s input = some p → p.done = false →
    0 < p.read ∨ pending p.state < pending s

/-- Frames at the front of bytes, each with its content and its length. -/
abbrev Frames (α β : Type*) := List α → Option (List β × Nat)

/-- The contents of frames that lie one behind the other. -/
def contents (frame : Frames α β) (bytes : List α) : Option (List β) :=
  if hbytes : bytes = [] then some []
  else
    match frame bytes with
    | none => none
    | some (content, n) =>
        if hn : 0 < n then (contents frame (bytes.drop n)).map (content ++ ·) else none
termination_by bytes.length
decreasing_by
  have hpos : 0 < bytes.length := List.length_pos_iff.mpr hbytes
  rw [List.length_drop]
  omega

namespace Decoder

variable (d : Decoder α β)

/-- Call the decoder until a chunk is read or the frame ends. -/
def feed (s : d.State) (input : List α) (output : List β) : Option (d.State × List β × Bool) :=
  if hinput : input = [] then some (s, output, false)
  else
    match hstep : d.step s input with
    | none => none
    | some p =>
        if hdone : p.done = true then some (p.state, output ++ p.output, true)
        else feed p.state (input.drop p.read) (output ++ p.output)
termination_by (input.length, d.pending s)
decreasing_by
  have hpos : 0 < input.length := List.length_pos_iff.mpr hinput
  rcases d.progress hinput hstep (Bool.not_eq_true _ ▸ hdone) with hread | hpending
  · exact Prod.Lex.left _ _ (by rw [List.length_drop]; omega)
  · rcases Nat.eq_zero_or_pos p.read with hzero | hread
    · rw [hzero, List.drop_zero]
      exact Prod.Lex.right _ hpending
    · exact Prod.Lex.left _ _ (by rw [List.length_drop]; omega)

/-- Feed bytes in chunks of a size, until the frame ends. -/
def feedAll (capacity : Nat) (s : d.State) (bytes : List α) (output : List β) : Option (List β × Bool) :=
  if hbytes : bytes = [] ∨ capacity = 0 then some (output, false)
  else
    match d.feed s (bytes.take capacity) output with
    | none => none
    | some (_, output, true) => some (output, true)
    | some (s, output, false) => feedAll capacity s (bytes.drop capacity) output
termination_by bytes.length
decreasing_by
  obtain ⟨hne, hcapacity⟩ := not_or.mp hbytes
  have hpos : 0 < bytes.length := List.length_pos_iff.mpr hne
  rw [List.length_drop]
  omega

/-- The state behind bytes that were read, with what was written for them. -/
inductive Fed : List α → List β → d.State → Prop
  | created : Fed [] [] d.created
  | step {bytes input : List α} {output : List β} {s : d.State} {p : Piece d.State β} (hfed : Fed bytes output s)
      (hstep : d.step s input = some p) (hdone : p.done = false) :
      Fed (bytes ++ input.take p.read) (output ++ p.output) p.state

/-- The decoder is one for the frames. -/
structure Decodes (frame : Frames α β) : Prop where
  read_le : ∀ {s input p}, d.step s input = some p → p.read ≤ input.length
  length_le : ∀ {bytes content n}, frame bytes = some (content, n) → 0 < n ∧ n ≤ bytes.length
  front : ∀ {bytes content n}, frame bytes = some (content, n) → frame (bytes.take n) = some (content, n)
  more : ∀ {bytes content n} (rest : List α), frame bytes = some (content, n) →
    frame (bytes ++ rest) = some (content, n)
  /-- The decoder ends where a frame does. -/
  sound : ∀ {bytes output s input p}, d.Fed bytes output s → d.step s input = some p → p.done = true →
    frame (bytes ++ input.take p.read) = some (output ++ p.output, (bytes ++ input.take p.read).length)
  /-- The decoder does not fail in a frame, and reads the end of it last. -/
  complete : ∀ {bytes output s input rest content n}, d.Fed bytes output s → input ≠ [] →
    frame (bytes ++ input ++ rest) = some (content, n) → bytes.length < n →
    ∃ p, d.step s input = some p ∧ (p.done = true ∨ bytes.length + p.read < n)

variable {d} {frame : Frames α β} {bytes input rest : List α} {output content : List β} {s s' : d.State}
  {n capacity : Nat} {done : Bool}

theorem Decodes.feed (hd : d.Decodes frame) (hfed : d.Fed bytes output s)
    (h : d.feed s input output = some (s', content, done)) :
    (done = true → ∃ k ≤ input.length, frame (bytes ++ input.take k) = some (content, bytes.length + k)) ∧
      (done = false → d.Fed (bytes ++ input) content s') := by
  fun_induction Decoder.feed d s input output generalizing bytes with
  | case1 s output =>
      obtain ⟨rfl, rfl, rfl⟩ : s = s' ∧ output = content ∧ false = done := by simpa using h
      exact ⟨fun hdone => absurd hdone Bool.false_ne_true, fun _ => by rwa [List.append_nil]⟩
  | case2 => exact absurd h.symm (Option.some_ne_none _)
  | case3 s input output hne p hstep hdone =>
      obtain ⟨rfl, rfl, rfl⟩ : p.state = s' ∧ output ++ p.output = content ∧ true = done := by simpa using h
      have hsound := hd.sound hfed hstep hdone
      rw [List.length_append, List.length_take_of_le (hd.read_le hstep)] at hsound
      exact ⟨fun _ => ⟨p.read, hd.read_le hstep, hsound⟩, fun hnot => absurd hnot.symm Bool.false_ne_true⟩
  | case4 s input output hne p hstep hdone ih =>
      obtain ⟨hends, hgoes⟩ := ih (hfed.step hstep (Bool.not_eq_true _ ▸ hdone)) h
      have hle := hd.read_le hstep
      constructor
      · intro htrue
        obtain ⟨k, hk, hframe⟩ := hends htrue
        rw [List.length_drop] at hk
        refine ⟨p.read + k, by omega, ?_⟩
        rw [List.append_assoc, ← List.take_add, List.length_append, List.length_take_of_le hle, add_assoc] at hframe
        exact hframe
      · intro hfalse
        have hgo := hgoes hfalse
        rwa [List.append_assoc, List.take_append_drop] at hgo

theorem Decodes.feed_complete (hd : d.Decodes frame) (hfed : d.Fed bytes output s)
    (hframe : frame (bytes ++ input ++ rest) = some (content, n)) (hlt : bytes.length < n) :
    ∃ r, d.feed s input output = some r ∧ (r.2.2 = false → bytes.length + input.length < n) := by
  fun_induction Decoder.feed d s input output generalizing bytes with
  | case1 s output => exact ⟨_, rfl, fun _ => hlt⟩
  | case2 s input output hne hstep =>
      obtain ⟨p, hp, -⟩ := hd.complete hfed hne hframe hlt
      exact absurd (hp.symm.trans hstep) (Option.some_ne_none _)
  | case3 s input output hne p hstep hdone =>
      exact ⟨_, rfl, fun hnot => absurd hnot.symm Bool.false_ne_true⟩
  | case4 s input output hne p hstep hdone ih =>
      obtain ⟨p', hp', hread⟩ := hd.complete hfed hne hframe hlt
      obtain rfl := Option.some.inj (hstep.symm.trans hp')
      have hle := hd.read_le hstep
      have hbefore : bytes.length + p.read < n := hread.resolve_left hdone
      have hjoin : bytes ++ input.take p.read ++ input.drop p.read = bytes ++ input := by
        rw [List.append_assoc, List.take_append_drop]
      have hlength : (bytes ++ input.take p.read).length = bytes.length + p.read := by
        rw [List.length_append, List.length_take_of_le hle]
      obtain ⟨r, hr, hrest⟩ := ih (hfed.step hstep (Bool.not_eq_true _ ▸ hdone)) (by rw [hjoin]; exact hframe)
        (by rw [hlength]; exact hbefore)
      refine ⟨r, hr, fun hfalse => ?_⟩
      have hend := hrest hfalse
      rw [hlength, List.length_drop] at hend
      omega

theorem Decodes.feedAll_sound (hd : d.Decodes frame) (hfed : d.Fed bytes output s)
    (h : d.feedAll capacity s rest output = some (content, true)) :
    ∃ n, frame (bytes ++ rest) = some (content, n) := by
  fun_induction Decoder.feedAll d capacity s rest output generalizing bytes with
  | case1 => exact absurd (Prod.mk.inj (Option.some.inj h)).2 Bool.false_ne_true
  | case2 => exact absurd h.symm (Option.some_ne_none _)
  | case3 s rest output _ s' content' hfeed =>
      obtain ⟨rfl, -⟩ := Prod.mk.inj (Option.some.inj h)
      obtain ⟨k, hk, hframe⟩ := (hd.feed hfed hfeed).1 rfl
      have hmore := hd.more (rest.drop (min k capacity)) hframe
      rw [List.take_take, List.append_assoc, List.take_append_drop] at hmore
      exact ⟨_, hmore⟩
  | case4 s rest output _ s' content' hfeed ih =>
      have hnext := ih ((hd.feed hfed hfeed).2 rfl) h
      rwa [List.append_assoc, List.take_append_drop] at hnext

theorem Decodes.feedAll_complete (hd : d.Decodes frame) (hcapacity : 0 < capacity) (hfed : d.Fed bytes output s)
    (hframe : frame (bytes ++ rest) = some (content, n)) (hlt : bytes.length < n) :
    d.feedAll capacity s rest output = some (content, true) := by
  have hchunk {rest : List α} (hframe : frame (bytes ++ rest) = some (content, n)) :
      frame (bytes ++ rest.take capacity ++ rest.drop capacity) = some (content, n) := by
    rwa [List.append_assoc, List.take_append_drop]
  fun_induction Decoder.feedAll d capacity s rest output generalizing bytes with
  | case1 s rest output hempty =>
      rcases hempty with rfl | hzero
      · have hle := (hd.length_le hframe).2
        rw [List.append_nil] at hle
        omega
      · omega
  | case2 s rest output _ hfeed =>
      obtain ⟨r, hr, -⟩ := hd.feed_complete hfed (hchunk hframe) hlt
      exact absurd (hr.symm.trans hfeed) (Option.some_ne_none _)
  | case3 s rest output _ s' content' hfeed =>
      obtain ⟨k, hk, hfront⟩ := (hd.feed hfed hfeed).1 rfl
      have hmore := hd.more ((rest.take capacity).drop k ++ rest.drop capacity) hfront
      rw [List.append_assoc, ← List.append_assoc ((rest.take capacity).take k), List.take_append_drop,
        List.take_append_drop, hframe] at hmore
      rw [(Prod.mk.inj (Option.some.inj hmore)).1]
  | case4 s rest output _ s' content' hfeed ih =>
      obtain ⟨r, hr, hleft⟩ := hd.feed_complete hfed (hchunk hframe) hlt
      obtain rfl := Option.some.inj (hr.symm.trans hfeed)
      refine ih ((hd.feed hfed hfeed).2 rfl) (hchunk hframe) ?_ fun hframe => ?_
      · rw [List.length_append]
        exact hleft rfl
      · rwa [List.append_assoc _ (List.take _ _), List.take_append_drop]

/-- Bytes are decoded, whatever the size of the chunks, if and only if they begin with a frame. -/
theorem Decodes.feedAll_eq_some_iff (hd : d.Decodes frame) (hcapacity : 0 < capacity) :
    d.feedAll capacity d.created bytes [] = some (content, true) ↔ ∃ n, frame bytes = some (content, n) :=
  ⟨fun h => hd.feedAll_sound .created h,
    fun ⟨_, hframe⟩ => hd.feedAll_complete hcapacity .created hframe (hd.length_le hframe).1⟩

theorem Decodes.contents_eq (hd : d.Decodes frame) (hframe : frame bytes = some (content, n)) :
    contents frame bytes = (contents frame (bytes.drop n)).map (content ++ ·) := by
  obtain ⟨hpos, hle⟩ := hd.length_le hframe
  have hne : bytes ≠ [] := by
    rintro rfl
    exact absurd (hpos.trans_le hle) (Nat.lt_irrefl 0)
  rw [contents, dif_neg hne]
  simp only [hframe, hpos, dif_pos]

theorem contents_eq_none (hne : bytes ≠ []) (hframe : frame bytes = none) : contents frame bytes = none := by
  rw [contents, dif_neg hne]
  simp only [hframe]

end Decoder

/-! ## Decoders by elements -/

section Elements

variable {α β : Type} (frame : Frames α β)

/-- The frame that bytes are, if they are one. -/
def whole (bytes : List α) : Option (List β) :=
  ((frame bytes).filter fun f => f.2 = bytes.length).map Prod.fst

/-- A decoder that reads one element after another, and writes where the frame ends. -/
def Decoder.ofFrames : Decoder α β where
  State := List α
  created := []
  step s input := some {
    state := s ++ input.take 1
    read := (input.take 1).length
    output := (whole frame (s ++ input.take 1)).getD []
    done := (whole frame (s ++ input.take 1)).isSome }
  pending _ := 0
  progress {s input p} hne hstep _ := by
    obtain rfl := Option.some.inj hstep
    rw [List.length_take]
    exact .inl (lt_min Nat.one_pos (List.length_pos_iff.mpr hne))

variable {frame}

theorem whole_eq_some {bytes : List α} {content : List β} :
    whole frame bytes = some content ↔ frame bytes = some (content, bytes.length) := by
  rw [whole, Option.map_eq_some_iff]
  constructor
  · rintro ⟨⟨content', n⟩, hfilter, rfl⟩
    obtain ⟨hframe, hlength⟩ := Option.filter_eq_some_iff.mp hfilter
    rw [hframe]
    simpa using hlength
  · intro hframe
    exact ⟨_, Option.filter_eq_some_iff.mpr ⟨hframe, by simp⟩, rfl⟩

theorem Decoder.fed_ofFrames {bytes : List α} {output : List β} {s : (Decoder.ofFrames frame).State}
    (h : (Decoder.ofFrames frame).Fed bytes output s) : @Eq (List α) bytes s ∧ output = [] := by
  induction h with
  | created => exact ⟨rfl, rfl⟩
  | @step bytes input output s p hfed hstep hdone ih =>
      obtain ⟨rfl, rfl⟩ := ih
      obtain rfl := Option.some.inj hstep
      have hnone : whole frame (bytes ++ input.take 1) = none := Option.not_isSome_iff_eq_none.mp (by simpa using hdone)
      dsimp only
      rw [hnone, List.length_take, ← List.take_eq_take_min]
      exact ⟨rfl, rfl⟩

theorem Decoder.decodes_ofFrames
    (hlength : ∀ {bytes content n}, frame bytes = some (content, n) → 0 < n ∧ n ≤ bytes.length)
    (hfront : ∀ {bytes content n}, frame bytes = some (content, n) → frame (bytes.take n) = some (content, n))
    (hmore : ∀ {bytes content n} (rest : List α), frame bytes = some (content, n) →
      frame (bytes ++ rest) = some (content, n)) :
    (Decoder.ofFrames frame).Decodes frame where
  read_le {s input p} hstep := by
    obtain rfl := Option.some.inj hstep
    exact List.length_take_le' ..
  length_le := hlength
  front := hfront
  more := hmore
  sound {bytes output s input p} hfed hstep hdone := by
    obtain ⟨rfl, rfl⟩ := Decoder.fed_ofFrames hfed
    obtain rfl := Option.some.inj hstep
    obtain ⟨content, hwhole⟩ := Option.isSome_iff_exists.mp hdone
    dsimp only
    rw [hwhole, List.length_take, ← List.take_eq_take_min, whole_eq_some.mp hwhole]
    rfl
  complete {bytes output s input rest content n} hfed hne hframe hlt := by
    obtain ⟨rfl, rfl⟩ := Decoder.fed_ofFrames hfed
    refine ⟨_, rfl, ?_⟩
    obtain ⟨b, input, rfl⟩ := List.exists_cons_of_ne_nil hne
    rcases Nat.lt_or_eq_of_le (Nat.succ_le_of_lt hlt) with hbefore | hend
    · exact .inr hbefore
    · left
      have htake : (bytes ++ b :: input ++ rest).take n = bytes ++ [b] := by
        rw [← hend]
        simp [List.take_append]
      have hwhole := hfront hframe
      rw [htake, ← hend] at hwhole
      exact Option.isSome_iff_exists.mpr ⟨content, whole_eq_some.mpr (hwhole.trans (by simp))⟩

end Elements

end Cytrus.Support.FrameStream
