import Cytrus.Cheats.GatewayCheat

/-!
# Runs of a cheat

Outside of skipped blocks a jump back leads to the loop line that it counts, so
only so many of them are possible. A `FullTerminator` in a skipped block jumps
back, too, but then the loop line is skipped and counts nothing.

## Main results

* `iteration_moves`: what an iteration does to the variables of the loop
* `execute_finishes_iff`: the runs that come to an end

## Implementation notes

The measure of a state is lexicographic: the lines behind the loop line, twice
the jumps that the loop still has, and the lines behind the current one.
-/

namespace Cytrus.Cheats

variable {μ : Type*} {platform : Platform μ} {lines : List Instruction} {m : Machine μ} {s s' : State}
  {line : Instruction}

/-! ## What an iteration can do -/

/-- A loop line is executed. -/
structure EntersLoop (line : Instruction) (s s' : State) : Prop where
  type : line.type = .loop
  loopFlag : s'.loopFlag = decide (s.loopCount < line.value)
  loopCount : s'.loopCount = s.loopCount + 1
  loopBackLine : s'.loopBackLine = s.currentLineNr
  currentLineNr : s'.currentLineNr = s.currentLineNr + 1

/-- The run goes back to the loop line. -/
structure GoesBack (s s' : State) : Prop where
  loopFlag : s.loopFlag = true
  ifFlag : s'.ifFlag = s.ifFlag
  loop : s'.loopFlag = s.loopFlag ∧ s'.loopCount = s.loopCount ∧ s'.loopBackLine = s.loopBackLine
  currentLineNr : s'.currentLineNr = s.loopBackLine

/-- The run goes on, and the loop is what it was. -/
structure GoesOn (s s' : State) : Prop where
  loopFlag : s'.loopFlag = s.loopFlag
  loopCount : s.loopFlag = true → s'.loopCount = s.loopCount
  loopBackLine : s'.loopBackLine = s.loopBackLine
  currentLineNr : s.currentLineNr < s'.currentLineNr

/-- What an iteration does. -/
inductive Moves (line : Instruction) (s s' : State) : Prop
  | enters (hskip : s.ifFlag = 0) (h : EntersLoop line s s')
  | back (htype : line.type ≠ .loop) (hskip : 0 < s.ifFlag → line.type = .fullTerminator)
      (h : GoesBack s s')
  | on (htype : s.ifFlag = 0 → line.type ≠ .loop) (h : GoesOn s s')

/-- The run is about to go back out of a skipped block. -/
def BackFromSkipped (lines : List Instruction) (s : State) : Prop :=
  0 < s.ifFlag ∧ s.loopFlag = true ∧
    ∃ line, lines[s.currentLineNr.toNat]? = some line ∧ line.type = .fullTerminator

/-- The state in the next iteration. -/
def State.next (s : State) : State := { s with currentLineNr := s.currentLineNr + 1 }

section Operations

/-- An operation that leaves the loop and the line alone. -/
structure Keeps (s s' : State) : Prop where
  loopFlag : s'.loopFlag = s.loopFlag
  loopCount : s'.loopCount = s.loopCount
  loopBackLine : s'.loopBackLine = s.loopBackLine
  currentLineNr : s.currentLineNr ≤ s'.currentLineNr

theorem Keeps.on (h : Keeps s s') : GoesOn s s'.next :=
  ⟨h.loopFlag, fun _ => h.loopCount, h.loopBackLine, by
    have hle := h.currentLineNr
    simp only [State.next]
    omega⟩

theorem keeps_refl : Keeps s s := ⟨rfl, rfl, rfl, le_rfl⟩

theorem keeps_writeOp {T : Type} [DecidableEq T] (read : μ → UInt32 → T) (write : μ → UInt32 → T → μ)
    (cast : UInt32 → T) (size : UInt32) :
    Keeps m.state (writeOp platform read write cast size line m).state := by
  unfold writeOp
  simp only
  split <;> exact keeps_refl

theorem keeps_compOp {T : Type} (read : μ → UInt32 → T) (comp : T → Bool) :
    Keeps m.state (compOp read comp line m).state := by
  unfold compOp
  simp only
  split <;> exact ⟨rfl, rfl, rfl, le_rfl⟩

theorem keeps_jokerOp : Keeps m.state (jokerOp platform line m).state := by
  unfold jokerOp
  split <;> exact ⟨rfl, rfl, rfl, le_rfl⟩

theorem keeps_terminateOp : Keeps s (terminateOp s) := by
  unfold terminateOp
  split <;> exact ⟨rfl, rfl, rfl, le_rfl⟩

/-- The loops of `PatchOp` only go forward. -/
theorem currentLineNr_word (n : Nat) (p : PatchState μ) :
    p.currentLineNr ≤ ((PatchState.word platform lines)^[n] p).currentLineNr := by
  induction n generalizing p with
  | zero => exact le_rfl
  | succ n ih =>
      refine le_trans ?_ (ih _)
      simp only [PatchState.word]
      split <;> omega

theorem currentLineNr_byte (n : Nat) (p : PatchState μ) :
    ((PatchState.byte platform lines)^[n] p).currentLineNr = p.currentLineNr := by
  induction n generalizing p with
  | zero => rfl
  | succ n ih => exact ih _

theorem keeps_patchOp : Keeps m.state (patchOp platform lines line m).state := by
  unfold patchOp
  split
  · exact ⟨rfl, rfl, rfl, by simp only; omega⟩
  · refine ⟨rfl, rfl, rfl, ?_⟩
    simp only [currentLineNr_byte]
    refine le_trans ?_ (currentLineNr_word _ _)
    simp only
    split <;> omega

theorem enters_loopOp (htype : line.type = .loop) : EntersLoop line s (loopOp line s).next :=
  ⟨htype, rfl, rfl, rfl, rfl⟩

theorem loopExecuteVariantOp_moves :
    GoesBack s (loopExecuteVariantOp s).next ∨ GoesOn s (loopExecuteVariantOp s).next := by
  unfold loopExecuteVariantOp
  split
  · next hflag => exact .inl ⟨hflag, rfl, ⟨rfl, rfl, rfl⟩, by simp [State.next]⟩
  · next hflag => exact .inr ⟨rfl, fun h => absurd h hflag, rfl, by simp [State.next]⟩

theorem fullTerminateOp_moves :
    GoesBack s (fullTerminateOp s).next ∨
      s.loopFlag = false ∧ GoesOn s (fullTerminateOp s).next := by
  unfold fullTerminateOp
  split
  · next hflag => exact .inl ⟨hflag, rfl, ⟨rfl, rfl, rfl⟩, by simp [State.next]⟩
  · next hflag =>
    have hfalse : s.loopFlag = false := Bool.eq_false_iff.mpr hflag
    exact .inr ⟨hfalse, by simp [State.next, hfalse], fun h => absurd h hflag, rfl,
      by simp [State.next]⟩

end Operations

theorem skipLine_moves (hskip : 0 < m.state.ifFlag) :
    Moves line m.state (skipLine platform lines line m).state.next := by
  have hnot : m.state.ifFlag = 0 → line.type ≠ .loop := by
    intro h0
    rw [h0] at hskip
    exact absurd hskip (by decide)
  unfold skipLine
  split
  case h_10 => exact .on hnot keeps_patchOp.on
  case h_11 => exact .on hnot keeps_terminateOp.on
  case h_12 htype =>
    rcases @fullTerminateOp_moves m.state with h | ⟨-, h⟩
    · exact .back (by rw [htype]; decide) (fun _ => htype) h
    · exact .on hnot h
  all_goals exact .on hnot (Keeps.on ⟨rfl, rfl, rfl, le_rfl⟩)

theorem executeLine_moves (hskip : m.state.ifFlag = 0) :
    Moves line m.state (executeLine platform lines line m).state.next := by
  have hnone : ¬0 < m.state.ifFlag := by
    rw [hskip]
    decide
  have hkeeps (h : line.type ≠ .loop) {s' : State} (hs : Keeps m.state s') :
      Moves line m.state s'.next := .on (fun _ => h) hs.on
  unfold executeLine
  cases htype : line.type with
  | loop => exact .enters hskip (enters_loopOp htype)
  | loopExecuteVariant =>
      have hne : line.type ≠ .loop := by rw [htype]; decide
      rcases @loopExecuteVariantOp_moves m.state with h | h
      · exact .back hne (fun h0 => absurd h0 hnone) h
      · exact .on (fun _ => hne) h
  | fullTerminator =>
      have hne : line.type ≠ .loop := by rw [htype]; decide
      rcases @fullTerminateOp_moves m.state with h | ⟨-, h⟩
      · exact .back hne (fun _ => htype) h
      · exact .on (fun _ => hne) h
  | write32 | write16 | write8 => exact hkeeps (by rw [htype]; decide) (keeps_writeOp _ _ _ _)
  | greaterThan32 | lessThan32 | equalTo32 | notEqualTo32 | greaterThan16WithMask
  | lessThan16WithMask | equalTo16WithMask | notEqualTo16WithMask =>
      exact hkeeps (by rw [htype]; decide) (keeps_compOp _ _)
  | joker => exact hkeeps (by rw [htype]; decide) keeps_jokerOp
  | terminator => exact hkeeps (by rw [htype]; decide) keeps_terminateOp
  | patch => exact hkeeps (by rw [htype]; decide) keeps_patchOp
  | _ => exact hkeeps (by rw [htype]; decide) ⟨rfl, rfl, rfl, le_rfl⟩

/-- What an iteration does to the variables of the loop. -/
theorem iteration_moves (hline : lines[m.state.currentLineNr.toNat]? = some line)
    (h : ¬Finished lines m) : Moves line m.state (iteration platform lines m).state := by
  have hat : lineAt platform lines m.state.currentLineNr = line := by
    rw [lineAt, hline, Option.getD_some]
  unfold iteration
  rw [if_neg h]
  simp only [hat]
  split
  · next hskip => exact skipLine_moves hskip
  · next hskip =>
    have hzero : m.state.ifFlag = 0 := by
      rw [UInt32.lt_iff_toNat_lt] at hskip
      exact UInt32.toNat_inj.mp (by simpa using hskip)
    exact executeLine_moves hzero

/-! ## The measure -/

/-- The loop line is not behind the current one, and the counter has not passed its end. -/
structure Sound (lines : List Instruction) (s : State) : Prop where
  nonneg : 0 ≤ s.loopBackLine
  le : s.loopBackLine ≤ s.currentLineNr
  loop : s.loopFlag = true → ∃ line, lines[s.loopBackLine.toNat]? = some line ∧
    line.type = .loop ∧ s.loopCount ≤ line.value

theorem sound_start : Sound lines {} := ⟨le_rfl, le_rfl, fun h => nomatch h⟩

theorem toNat_succ {c v : UInt32} (h : c < v) : (c + 1).toNat = c.toNat + 1 := by
  have hlt := UInt32.lt_iff_toNat_lt.mp h
  have hv := v.toNat_lt
  have hone : (1 : UInt32).toNat = 1 := rfl
  rw [UInt32.toNat_add, hone]
  exact Nat.mod_eq_of_lt (by omega)

theorem pos_of_ne {x : UInt32} (h : x ≠ 0) : 0 < x := by
  rw [UInt32.lt_iff_toNat_lt]
  exact Nat.pos_of_ne_zero fun h0 => h (UInt32.toNat_inj.mp h0)

/-- How often the loop can still be entered. -/
def roundsLeft (lines : List Instruction) (s : State) : Nat :=
  match lines[s.loopBackLine.toNat]? with
  | some line => line.value.toNat - s.loopCount.toNat
  | none => 0

theorem Sound.moves (h : Sound lines s) (hline : lines[s.currentLineNr.toNat]? = some line)
    (hmoves : Moves line s s') : Sound lines s' := by
  cases hmoves with
  | enters hskip he =>
      refine ⟨?_, ?_, ?_⟩
      · rw [he.loopBackLine]
        exact h.nonneg.trans h.le
      · rw [he.loopBackLine, he.currentLineNr]
        omega
      · intro hflag
        rw [he.loopFlag, decide_eq_true_eq] at hflag
        refine ⟨line, by rw [he.loopBackLine]; exact hline, he.type, ?_⟩
        rw [he.loopCount, UInt32.le_iff_toNat_le, toNat_succ hflag]
        exact UInt32.lt_iff_toNat_lt.mp hflag
  | back htype hskip hb =>
      refine ⟨hb.loop.2.2 ▸ h.nonneg, ?_, ?_⟩
      · rw [hb.loop.2.2, hb.currentLineNr]
      · rw [hb.loop.1, hb.loop.2.1, hb.loop.2.2]
        exact h.loop
  | on htype ho =>
      refine ⟨ho.loopBackLine ▸ h.nonneg, ?_, ?_⟩
      · rw [ho.loopBackLine]
        exact h.le.trans ho.currentLineNr.le
      · intro hflag
        rw [ho.loopFlag] at hflag
        rw [ho.loopBackLine, ho.loopCount hflag]
        exact h.loop hflag

/-- The measure of a state: the lines behind the loop line, which is one more before anything was
executed; the jumps that the loop has left; and the lines behind the current one. -/
def remaining (lines : List Instruction) (s : State) : Nat ×ₗ Nat ×ₗ Nat :=
  toLex (lines.length - s.loopBackLine.toNat +
      if s.loopFlag = false ∧ s.loopBackLine = s.currentLineNr then 1 else 0,
    toLex (if s.loopFlag then
        2 * roundsLeft lines s + 2 - if s.loopBackLine = s.currentLineNr ∧ s.ifFlag = 0 then 1 else 0
      else 0,
      lines.length - s.currentLineNr.toNat))

theorem remaining_lt (h : Sound lines s) (hline : lines[s.currentLineNr.toNat]? = some line)
    (hmoves : Moves line s s') (hback : ¬BackFromSkipped lines s) :
    remaining lines s' < remaining lines s := by
  have hle := h.le
  have hnonneg := h.nonneg
  have hlt : s.currentLineNr.toNat < lines.length := (List.getElem?_eq_some_iff.mp hline).1
  simp only [remaining, Prod.Lex.toLex_lt_toLex]
  cases hmoves with
  | enters hskip he =>
      have hrounds : roundsLeft lines s' = line.value.toNat - s'.loopCount.toNat := by
        rw [roundsLeft, he.loopBackLine, hline]
      rw [he.loopBackLine, he.currentLineNr, he.loopFlag]
      by_cases hflag : s.loopFlag = true ∧ s.loopBackLine = s.currentLineNr
      · -- the loop is entered once more, and has one round less
        obtain ⟨hflag, hat⟩ := hflag
        right
        have hold : roundsLeft lines s = line.value.toNat - s.loopCount.toNat := by
          rw [roundsLeft, hat, hline]
        by_cases hmore : s.loopCount < line.value
        · have hcount := toNat_succ hmore
          have hless := UInt32.lt_iff_toNat_lt.mp hmore
          rw [hrounds, hold, he.loopCount, hcount]
          simp [hflag, hat, hskip, hmore]
          omega
        · simp [hflag, hat, hskip, hmore]
      · left
        have hnew : ¬s.currentLineNr = s.currentLineNr + 1 := by omega
        simp only [hnew, and_false, if_false, Nat.add_zero]
        by_cases hat : s.loopBackLine = s.currentLineNr
        · have hfalse : s.loopFlag = false := Bool.eq_false_iff.mpr fun h => hflag ⟨h, hat⟩
          rw [if_pos ⟨hfalse, hat⟩, hat]
          exact Nat.lt_succ_self _
        · omega
  | back htype hskip hb =>
      obtain ⟨hflag, hcount, hloop⟩ := hb.loop
      have hzero : s.ifFlag = 0 := by
        by_contra hne
        have hpos := pos_of_ne hne
        exact hback ⟨hpos, hb.loopFlag, line, hline, hskip hpos⟩
      have hahead : s.loopBackLine ≠ s.currentLineNr := by
        intro hat
        obtain ⟨line', hline', htype', -⟩ := h.loop hb.loopFlag
        rw [hat, hline] at hline'
        exact htype ((Option.some.inj hline').symm ▸ htype')
      have hrounds : roundsLeft lines s' = roundsLeft lines s := by
        rw [roundsLeft, roundsLeft, hloop, hcount]
      rw [hrounds, hloop, hb.currentLineNr, hflag, hb.loopFlag, hb.ifFlag, hzero]
      right
      simp [hahead]
  | on htype ho =>
      have hnext := ho.currentLineNr
      have hahead : s.loopBackLine ≠ s'.currentLineNr := by omega
      have hless : lines.length - s'.currentLineNr.toNat < lines.length - s.currentLineNr.toNat := by
        omega
      simp only [ho.loopFlag, ho.loopBackLine, hahead, and_false, if_false, false_and]
      cases hflag : s.loopFlag with
      | true =>
          have hrounds : roundsLeft lines s' = roundsLeft lines s := by
            rw [roundsLeft, roundsLeft, ho.loopBackLine, ho.loopCount hflag]
          have hnot : ¬(s.loopBackLine = s.currentLineNr ∧ s.ifFlag = 0) := by
            rintro ⟨hat, hzero⟩
            obtain ⟨line', hline', htype', -⟩ := h.loop hflag
            rw [hat, hline] at hline'
            exact htype hzero ((Option.some.inj hline').symm ▸ htype')
          right
          simp [hrounds, hnot, hless]
      | false =>
          by_cases hat : s.loopBackLine = s.currentLineNr
          · left
            simp [hat]
          · right
            simp [hat, hless]

/-! ## Runs -/

theorem execute_succ (memory : μ) (n : Nat) :
    execute platform lines memory (n + 1) =
      iteration platform lines (execute platform lines memory n) := by
  simp only [execute, Function.iterate_succ_apply']

theorem Finished.iteration (h : Finished lines m) : iteration platform lines m = m := if_pos h

theorem finished_later {memory : μ} {n : Nat} (h : Finished lines (execute platform lines memory n))
    (k : Nat) : Finished lines (execute platform lines memory (n + k)) := by
  induction k with
  | zero => exact h
  | succ k ih =>
      rw [← Nat.add_assoc, execute_succ, ih.iteration]
      exact ih

theorem line_of_running (h : Sound lines m.state) (hrunning : ¬Finished lines m) :
    ∃ line, lines[m.state.currentLineNr.toNat]? = some line := by
  have hnonneg := h.nonneg.trans h.le
  have hlt : m.state.currentLineNr.toNat < lines.length := by
    unfold Finished at hrunning
    omega
  exact ⟨_, List.getElem?_eq_getElem hlt⟩

theorem Sound.iteration (h : Sound lines m.state) :
    Sound lines (Cheats.iteration platform lines m).state := by
  by_cases hend : Finished lines m
  · rw [hend.iteration]
    exact h
  · obtain ⟨line, hline⟩ := line_of_running h hend
    exact h.moves hline (iteration_moves hline hend)

theorem sound_execute (memory : μ) (n : Nat) :
    Sound lines (execute platform lines memory n).state := by
  induction n with
  | zero => exact sound_start
  | succ n ih =>
      rw [execute_succ]
      exact ih.iteration

theorem finishes_from {memory : μ} {k : Nat} (hback : ∀ n, k ≤ n →
    ¬BackFromSkipped lines (execute platform lines memory n).state) : Finishes platform lines memory := by
  generalize hleft : remaining lines (execute platform lines memory k).state = left
  induction left using WellFoundedLT.induction generalizing k with
  | ind left ih =>
      by_cases hend : Finished lines (execute platform lines memory k)
      · exact ⟨k, hend⟩
      · have hsound := @sound_execute _ platform lines memory k
        obtain ⟨line, hline⟩ := line_of_running hsound hend
        have hlt := remaining_lt hsound hline 
          (@iteration_moves _ platform _ _ _ hline hend) (hback k le_rfl)
        rw [← execute_succ, hleft] at hlt
        exact ih _ hlt (fun n hn => hback n (Nat.le_of_succ_le hn)) rfl

/-- A cheat comes to an end if, and only if, it goes back out of a skipped block only so often. -/
theorem execute_finishes_iff (platform : Platform μ) (lines : List Instruction) (memory : μ) :
    Finishes platform lines memory ↔
      ∃ k, ∀ n, k ≤ n → ¬BackFromSkipped lines (execute platform lines memory n).state := by
  constructor
  · rintro ⟨k, hend⟩
    refine ⟨k, fun n hn => ?_⟩
    rintro ⟨-, -, line, hline, -⟩
    obtain ⟨j, rfl⟩ := Nat.exists_eq_add_of_le hn
    have hend := finished_later hend j
    have hlt := (List.getElem?_eq_some_iff.mp hline).1
    unfold Finished at hend
    omega
  · rintro ⟨k, hback⟩
    exact finishes_from hback

/-- A platform whose memory holds zeros. -/
def zeroPlatform : Platform Unit where
  read8 := fun _ _ => 0
  read16 := fun _ _ => 0
  read32 := fun _ _ => 0
  write8 := fun _ _ _ => ()
  write16 := fun _ _ _ => ()
  write32 := fun _ _ _ => ()
  invalidateCacheRange := fun _ _ _ => ()
  padState := fun _ => 0
  behind := fun _ => { type := .null }

/-- A loop around the end of a block and a condition that fails. -/
def stuckLines : List Instruction :=
  [{ type := .loop, value := 1 }, { type := .terminator }, { type := .equalTo32, value := 1 },
    { type := .fullTerminator }]

/-- The condition opens a block, its end jumps back, and the next round closes the block. -/
theorem execute_stuck : ¬Finishes zeroPlatform stuckLines () := by
  have hcycle : ∀ n, ∃ i < 8, execute zeroPlatform stuckLines () n = execute zeroPlatform stuckLines () i := by
    intro n
    induction n with
    | zero => exact ⟨0, by decide, rfl⟩
    | succ n ih =>
        obtain ⟨i, hi, heq⟩ := ih
        rw [execute_succ, heq, ← execute_succ]
        by_cases hlast : i = 7
        · exact ⟨4, by decide, by rw [hlast]; rfl⟩
        · exact ⟨i + 1, by omega, rfl⟩
  rintro ⟨n, hend⟩
  obtain ⟨i, hi, heq⟩ := hcycle n
  rw [heq] at hend
  interval_cases i <;> revert hend <;> decide

end Cytrus.Cheats
