import Mathlib
import Cytrus.VideoCore.PicaRegisters

/-!
# The input of the geometry shader

With a geometry shader, the outputs of the vertex shader are collected in a
buffer: in the attributes of the shader unit for as many vertices as its inputs
take, in its uniforms for as many as the index stream announces, or in its
uniforms for a fixed number.

Nothing compares the number that is announced, or the first uniform and the
fixed number, with the number of uniforms, and an announced number of zero is
counted down.

## Main results

* `Backend.Holds.submit`: where one submission writes, and when the shader runs
* `run_inside`: the same for any sequence of submissions

## Implementation notes

A place in a buffer is its index, and a write is the place with the attribute
that goes there. A submission that is not the one that is asked for has no
result, as an assertion that fails.
-/

namespace Cytrus.VideoCore.Pica

/-! ## Registers -/

section Registers

variable (regs : Fin 0x300 → UInt32)

def useGs : UInt32 := bits 0 2 (regAt regs 0x229)
def variablePrimitive : UInt32 := bits 31 1 (regAt regs 0x229)
def vsOutmapTotalMinus1A : UInt32 := bits 0 4 (regAt regs 0x24a)
def vsOutmapTotalMinus1B : UInt32 := bits 0 4 (regAt regs 0x251)
def gsConfigMode : UInt32 := bits 0 8 (regAt regs 0x252)
def fixedVertexNumMinus1 : UInt32 := bits 8 4 (regAt regs 0x252)
def strideMinus1 : UInt32 := bits 12 4 (regAt regs 0x252)
def startIndex : UInt32 := bits 16 8 (regAt regs 0x252)
def variableVertexMainNumMinus1 : UInt32 := regAt regs 0x254
def gsMaxInputAttributeIndex : UInt32 := bits 0 4 (regAt regs 0x289)
def gsInputToUniform : UInt32 := bits 8 8 (regAt regs 0x289)
def gsShaderMode : UInt32 := bits 24 8 (regAt regs 0x289)

def vsOutputNum : Nat := (vsOutmapTotalMinus1A regs).toNat + 1

def gsInputNum : Nat := (gsMaxInputAttributeIndex regs).toNat + 1

/-- The vertices of a fixed primitive. -/
def fixedVertexNum : Nat := (fixedVertexNumMinus1 regs).toNat + 1

end Registers

/-! ## The three modes -/

/-- `GeometryPipelineBackend`. -/
inductive Backend
  | point (bufferCur bufferEnd vsOutputNum : Nat)
  | variablePrimitive (needIndex : Bool) (mainVertexNum totalVertexNum : UInt32)
      (bufferCur vsOutputNum : Nat)
  | fixedPrimitive (bufferBegin bufferCur bufferEnd vsOutputNum : Nat)
  deriving DecidableEq

/-- What the loop over the vertices submits. -/
inductive Submission
  | index (val : UInt16)
  | vertex
  deriving DecidableEq

/-- What is written through the place in the buffer, as places with attributes, the count that
goes to the first uniform, and whether the shader runs. -/
structure Submitted where
  writes : List (Nat × Nat)
  count : Option UInt16
  invoked : Bool
  deriving DecidableEq

namespace Backend

/-- The attributes that are copied to a place on. -/
def copy (cur n : Nat) : List (Nat × Nat) := (List.range n).map fun j => (cur + j, j)

/-- A main vertex is copied whole, of the others the first attribute. -/
def announcedWrites (main : UInt32) (cur n : Nat) : List (Nat × Nat) :=
  if main ≠ 0 then copy cur n else [(cur, 0)]

variable (regs : Fin 0x300 → UInt32)

def newPoint : Option Backend :=
  if Pica.variablePrimitive regs = 0 ∧ gsInputToUniform regs = 0 ∧
      gsInputNum regs % vsOutputNum regs = 0 then
    some (.point 0 (gsInputNum regs) (vsOutputNum regs))
  else none

def newVariablePrimitive : Option Backend :=
  if Pica.variablePrimitive regs = 1 ∧ gsInputToUniform regs = 1 then
    some (.variablePrimitive true 0 0 0 (vsOutputNum regs))
  else none

def newFixedPrimitive : Option Backend :=
  if Pica.variablePrimitive regs = 0 ∧ gsInputToUniform regs = 1 ∧
      vsOutputNum regs = (strideMinus1 regs).toNat + 1 then
    some (.fixedPrimitive (startIndex regs).toNat (startIndex regs).toNat
      ((startIndex regs).toNat + vsOutputNum regs * fixedVertexNum regs) (vsOutputNum regs))
  else none

def isEmpty : Backend → Bool
  | .point cur _ _ => cur = 0
  | .variablePrimitive needIndex _ _ _ _ => needIndex
  | .fixedPrimitive start cur _ _ => cur = start

def needIndexInput : Backend → Bool
  | .variablePrimitive needIndex _ _ _ _ => needIndex
  | _ => false

/-- `SubmitIndex` and `SubmitVertex`. -/
def submit : Backend → Submission → Option (Submitted × Backend)
  | .point cur bufferEnd n, .vertex =>
      if cur + n = bufferEnd then some (⟨copy cur n, none, true⟩, .point 0 bufferEnd n)
      else some (⟨copy cur n, none, false⟩, .point (cur + n) bufferEnd n)
  | .variablePrimitive true _ _ _ n, .index val =>
      some (⟨[], some val, false⟩,
        .variablePrimitive false (variableVertexMainNumMinus1 regs + 1) val.toUInt32 1 n)
  | .variablePrimitive false main total cur n, .vertex =>
      some (⟨announcedWrites main cur n, none, total - 1 = 0⟩,
        .variablePrimitive (total - 1 = 0) (if main ≠ 0 then main - 1 else main) (total - 1)
          (cur + (announcedWrites main cur n).length) n)
  | .fixedPrimitive start cur bufferEnd n, .vertex =>
      if cur + n = bufferEnd then
        some (⟨copy cur n, none, true⟩, .fixedPrimitive start start bufferEnd n)
      else some (⟨copy cur n, none, false⟩, .fixedPrimitive start (cur + n) bufferEnd n)
  | _, _ => none

/-- The submissions in turn. -/
def run (b : Backend) : List Submission → Option (List Submitted × Backend)
  | [] => some ([], b)
  | submission :: rest => do
      let first ← b.submit regs submission
      let last ← first.2.run rest
      return (first.1 :: last.1, last.2)

end Backend

/-- `GeometryPipeline::Reconfigure`: nothing if an assertion fails, no backend without a geometry
shader. -/
def reconfigure (regs : Fin 0x300 → UInt32) (backend : Option Backend) :
    Option (Option Backend) :=
  if backend.any fun b => !b.isEmpty then none
  else if useGs regs = 0 then some none
  else if gsShaderMode regs ≠ 0x08 ∨ useGs regs ≠ 2 ∨
      vsOutmapTotalMinus1A regs ≠ vsOutmapTotalMinus1B regs then none
  else if gsConfigMode regs = 0 then (Backend.newPoint regs).map some
  else if gsConfigMode regs = 1 then (Backend.newVariablePrimitive regs).map some
  else if gsConfigMode regs = 2 then (Backend.newFixedPrimitive regs).map some
  else none

/-! ## What the modes are for -/

/-- The vertices to come before the shader runs; nothing while a number is to be announced. -/
def countdown (period : Option Nat) : Option Nat → Submission → Option (Bool × Option Nat)
  | none, .index val => some (false, some val.toNat)
  | some 1, .vertex => some (true, period)
  | some (n + 2), .vertex => some (false, some (n + 1))
  | _, _ => none

/-- When the shader runs, submission after submission. -/
def countdownRun (period : Option Nat) (due : Option Nat) : List Submission → Option (List Bool)
  | [] => some []
  | submission :: rest => do
      let first ← countdown period due submission
      let last ← countdownRun period first.2 rest
      return first.1 :: last

namespace Backend

/-- The vertices of a run of the shader, where they are the same for all runs. -/
def period : Backend → Option Nat
  | .point _ bufferEnd n => some (bufferEnd / n)
  | .variablePrimitive .. => none
  | .fixedPrimitive start _ bufferEnd n => some ((bufferEnd - start) / n)

/-- The attributes of a vertex, or the float uniforms. -/
def bufferSize : Backend → Nat
  | .point .. => 16
  | _ => 96

/-- The uniforms that an announced number of vertices takes, with `main` vertices that are copied
whole. -/
def announcedSize (main total n : Nat) : Nat := min main total * n + (total - min main total)

/-- The room a submission asks for is there. -/
def Room (regs : Fin 0x300 → UInt32) : Backend → Submission → Prop
  | .variablePrimitive _ _ _ _ n, .index val => val ≠ 0 ∧
      1 + announcedSize (variableVertexMainNumMinus1 regs + 1).toNat val.toNat n ≤ 96
  | .fixedPrimitive _ _ bufferEnd _, .vertex => bufferEnd ≤ 96
  | _, _ => True

/-- What holds between submissions: the vertices that are due fill the rest of the buffer. -/
def Holds : Backend → Option Nat → Prop
  | .point cur bufferEnd n, some due =>
      0 < n ∧ 0 < due ∧ cur + due * n = bufferEnd ∧ bufferEnd ≤ 16 ∧ n ∣ cur
  | .variablePrimitive needIndex _ _ _ _, none => needIndex = true
  | .variablePrimitive needIndex main total cur n, some due =>
      needIndex = false ∧ 0 < due ∧ total.toNat = due ∧
        cur + announcedSize main.toNat due n ≤ 96
  | .fixedPrimitive start cur bufferEnd n, some due =>
      0 < n ∧ 0 < due ∧ start ≤ cur ∧ cur + due * n = bufferEnd ∧ n ∣ cur - start
  | _, none => False

theorem copy_lt {cur n size : Nat} (h : cur + n ≤ size) : ∀ w ∈ copy cur n, w.1 < size := by
  intro w hw
  obtain ⟨j, hj, rfl⟩ := List.mem_map.mp hw
  rw [List.mem_range] at hj
  show cur + j < size
  omega

theorem length_copy (cur n : Nat) : (copy cur n).length = n := by
  rw [copy, List.length_map, List.length_range]

theorem announcedSize_main {main total n : Nat} (hmain : main ≠ 0) (htotal : total ≠ 0) :
    announcedSize main total n = n + announcedSize (main - 1) (total - 1) n := by
  obtain ⟨main, rfl⟩ := Nat.exists_eq_succ_of_ne_zero hmain
  obtain ⟨total, rfl⟩ := Nat.exists_eq_succ_of_ne_zero htotal
  unfold announcedSize
  rw [Nat.succ_sub_one, Nat.succ_sub_one, Nat.succ_min_succ, Nat.succ_mul, Nat.succ_sub_succ]
  omega

theorem announcedSize_zero (total n : Nat) : announcedSize 0 total n = total := by
  unfold announcedSize
  rw [Nat.zero_min, Nat.zero_mul, Nat.zero_add, Nat.sub_zero]

theorem toNat_sub_one {a : UInt32} (h : a.toNat ≠ 0) : (a - 1).toNat = a.toNat - 1 := by
  have hle : (1 : UInt32) ≤ a := by
    rw [UInt32.le_iff_toNat_le]
    show 1 ≤ a.toNat
    omega
  exact UInt32.toNat_sub_of_le a 1 hle

theorem toNat_ne_zero {a : UInt32} : a ≠ 0 ↔ a.toNat ≠ 0 :=
  not_congr UInt32.toNat_inj.symm

/-- What the registers have set is as it was. -/
def Alike : Backend → Backend → Prop
  | .point _ bufferEnd n, .point _ bufferEnd' n' => bufferEnd' = bufferEnd ∧ n' = n
  | .variablePrimitive _ _ _ _ n, .variablePrimitive _ _ _ _ n' => n' = n
  | .fixedPrimitive start _ bufferEnd n, .fixedPrimitive start' _ bufferEnd' n' =>
      start' = start ∧ bufferEnd' = bufferEnd ∧ n' = n
  | _, _ => False

theorem Alike.keeps (regs : Fin 0x300 → UInt32) {b b' : Backend} (h : b.Alike b') :
    b'.bufferSize = b.bufferSize ∧ b'.period = b.period ∧ b'.Room regs = b.Room regs := by
  cases b <;> cases b' <;> try exact h.elim
  · obtain ⟨rfl, rfl⟩ := h
    exact ⟨rfl, rfl, funext fun submission => by cases submission <;> rfl⟩
  · obtain rfl : _ = _ := h
    exact ⟨rfl, rfl, funext fun submission => by cases submission <;> rfl⟩
  · obtain ⟨rfl, rfl, rfl⟩ := h
    exact ⟨rfl, rfl, funext fun submission => by cases submission <;> rfl⟩

variable {regs : Fin 0x300 → UInt32} {b b' : Backend} {due : Option Nat} {submission : Submission}
  {result : Submitted}

/-- What one submission has to keep and to do. -/
def Steps (b : Backend) (due : Option Nat) (submission : Submission) (result : Submitted)
    (b' : Backend) : Prop :=
  (∀ w ∈ result.writes, w.1 < b.bufferSize) ∧ b.Alike b' ∧
    ∃ due', countdown b.period due submission = some (result.invoked, due') ∧ b'.Holds due'

theorem steps_point {cur bufferEnd n : Nat} (h : (Backend.point cur bufferEnd n).Holds due)
    (hsubmit : (Backend.point cur bufferEnd n).submit regs .vertex = some (result, b')) :
    (Backend.point cur bufferEnd n).Steps due .vertex result b' := by
  cases due with
  | none => exact h.elim
  | some due =>
      obtain ⟨hn, hdue, hend, hsize, hcur⟩ := h
      obtain ⟨due, rfl⟩ := Nat.exists_eq_succ_of_ne_zero hdue.ne'
      rw [Nat.succ_mul] at hend
      have hcopy : ∀ w ∈ copy cur n, w.1 < 16 := copy_lt (by omega)
      rw [Backend.submit] at hsubmit
      split_ifs at hsubmit with hfull
      · cases hsubmit
        obtain rfl : due = 0 := by
          have hzero : due * n = 0 := by omega
          exact (Nat.mul_eq_zero.mp hzero).resolve_right hn.ne'
        refine ⟨hcopy, ⟨rfl, rfl⟩, some (bufferEnd / n), rfl, hn, ?_, ?_, hsize, dvd_zero n⟩
        · exact Nat.div_pos (by omega) hn
        · rw [Nat.zero_add]
          apply Nat.div_mul_cancel
          rw [← hfull]
          exact dvd_add hcur dvd_rfl
      · cases hsubmit
        cases due with
        | zero => exact absurd (by omega) hfull
        | succ due =>
            exact ⟨hcopy, ⟨rfl, rfl⟩, some (due + 1), rfl, hn, due.succ_pos, by omega, hsize,
              dvd_add hcur dvd_rfl⟩

theorem steps_fixedPrimitive {start cur bufferEnd n : Nat}
    (h : (Backend.fixedPrimitive start cur bufferEnd n).Holds due) (hroom : bufferEnd ≤ 96)
    (hsubmit : (Backend.fixedPrimitive start cur bufferEnd n).submit regs .vertex =
      some (result, b')) :
    (Backend.fixedPrimitive start cur bufferEnd n).Steps due .vertex result b' := by
  cases due with
  | none => exact h.elim
  | some due =>
      obtain ⟨hn, hdue, hstart, hend, hcur⟩ := h
      obtain ⟨due, rfl⟩ := Nat.exists_eq_succ_of_ne_zero hdue.ne'
      rw [Nat.succ_mul] at hend
      have hcopy : ∀ w ∈ copy cur n, w.1 < 96 := copy_lt (by omega)
      rw [Backend.submit] at hsubmit
      split_ifs at hsubmit with hfull
      · cases hsubmit
        obtain rfl : due = 0 := by
          have hzero : due * n = 0 := by omega
          exact (Nat.mul_eq_zero.mp hzero).resolve_right hn.ne'
        have hlength : bufferEnd - start = cur - start + n := by omega
        have hdvd : n ∣ bufferEnd - start := hlength ▸ dvd_add hcur dvd_rfl
        refine ⟨hcopy, ⟨rfl, rfl, rfl⟩, some ((bufferEnd - start) / n), rfl, hn, ?_, le_rfl, ?_, ?_⟩
        · exact Nat.div_pos (by omega) hn
        · rw [Nat.div_mul_cancel hdvd]
          omega
        · rw [Nat.sub_self]
          exact dvd_zero n
      · cases hsubmit
        cases due with
        | zero => exact absurd (by omega) hfull
        | succ due =>
            refine ⟨hcopy, ⟨rfl, rfl, rfl⟩, some (due + 1), rfl, hn, due.succ_pos, by omega, by omega,
              ?_⟩
            have hlength : cur + n - start = cur - start + n := by omega
            exact hlength ▸ dvd_add hcur dvd_rfl

theorem steps_index {needIndex : Bool} {main total : UInt32} {cur n : Nat} {val : UInt16}
    (h : (Backend.variablePrimitive needIndex main total cur n).Holds due)
    (hroom : (Backend.variablePrimitive needIndex main total cur n).Room regs (.index val))
    (hsubmit : (Backend.variablePrimitive needIndex main total cur n).submit regs (.index val) =
      some (result, b')) :
    (Backend.variablePrimitive needIndex main total cur n).Steps due (.index val) result b' := by
  cases needIndex with
  | false => cases hsubmit
  | true =>
      cases due with
      | some due => exact absurd h.1 Bool.noConfusion
      | none =>
          cases hsubmit
          refine ⟨fun w hw => absurd hw List.not_mem_nil, rfl, some val.toNat, rfl, rfl, ?_, ?_,
            hroom.2⟩
          · exact Nat.pos_of_ne_zero fun hzero => hroom.1 (UInt16.toNat_inj.mp hzero)
          · exact UInt16.toNat_toUInt32 val

theorem announced_room {main : UInt32} {cur due n : Nat} (hdue : 0 < due)
    (hend : cur + announcedSize main.toNat due n ≤ 96) :
    (∀ w ∈ announcedWrites main cur n, w.1 < 96) ∧
      cur + (announcedWrites main cur n).length +
        announcedSize (if main ≠ 0 then main - 1 else main).toNat (due - 1) n ≤ 96 := by
  unfold announcedWrites
  by_cases hmain : main = 0
  · subst hmain
    have hsize : announcedSize (0 : UInt32).toNat due n = due := announcedSize_zero due n
    have hrest : announcedSize (0 : UInt32).toNat (due - 1) n = due - 1 :=
      announcedSize_zero (due - 1) n
    rw [if_neg (not_not_intro rfl), if_neg (not_not_intro rfl), hrest]
    rw [hsize] at hend
    constructor
    · intro w hw
      obtain rfl := List.mem_singleton.mp hw
      show cur < 96
      omega
    · show cur + 1 + (due - 1) ≤ 96
      omega
  · have hmain' : main.toNat ≠ 0 := toNat_ne_zero.mp hmain
    rw [announcedSize_main hmain' hdue.ne'] at hend
    rw [if_pos hmain, if_pos hmain, toNat_sub_one hmain']
    constructor
    · exact copy_lt (by omega)
    · rw [length_copy]
      omega

theorem steps_announced {needIndex : Bool} {main total : UInt32} {cur n : Nat}
    (h : (Backend.variablePrimitive needIndex main total cur n).Holds due)
    (hsubmit : (Backend.variablePrimitive needIndex main total cur n).submit regs .vertex =
      some (result, b')) :
    (Backend.variablePrimitive needIndex main total cur n).Steps due .vertex result b' := by
  cases needIndex with
  | true => cases hsubmit
  | false =>
      cases due with
      | none => cases h
      | some due =>
          obtain ⟨-, hdue, htotal, hend⟩ := h
          obtain ⟨hwrites, hrest⟩ := announced_room hdue hend
          have hnext : (total - 1).toNat = due - 1 := by
            rw [toNat_sub_one (by omega), htotal]
          cases hsubmit
          refine ⟨hwrites, rfl, ?_⟩
          obtain _ | _ | due := due
          · exact absurd hdue (Nat.lt_irrefl 0)
          · have hlast : total - 1 = 0 := UInt32.toNat_inj.mp hnext
            exact ⟨none, by rw [hlast]; rfl, decide_eq_true hlast⟩
          · have hmore : total - 1 ≠ 0 := by
              rw [toNat_ne_zero, hnext]
              exact Nat.succ_ne_zero due
            refine ⟨some (due + 1), ?_, decide_eq_false hmore, due.succ_pos, hnext, hrest⟩
            show countdown none (some (due + 2)) .vertex = some (decide (total - 1 = 0), _)
            rw [decide_eq_false hmore]
            rfl

theorem Holds.submit (h : b.Holds due) (hroom : b.Room regs submission)
    (hsubmit : b.submit regs submission = some (result, b')) :
    b.Steps due submission result b' := by
  cases b with
  | point cur bufferEnd n =>
      cases submission with
      | index val => cases hsubmit
      | vertex => exact steps_point h hsubmit
  | variablePrimitive needIndex main total cur n =>
      cases submission with
      | index val => exact steps_index h hroom hsubmit
      | vertex => exact steps_announced h hsubmit
  | fixedPrimitive start cur bufferEnd n =>
      cases submission with
      | index val => cases hsubmit
      | vertex => exact steps_fixedPrimitive h hroom hsubmit

variable {submissions : List Submission} {results : List Submitted}

theorem run_cons (b : Backend) (submission : Submission) (rest : List Submission) :
    b.run regs (submission :: rest) = (b.submit regs submission).bind fun first =>
      (first.2.run regs rest).bind fun last => some (first.1 :: last.1, last.2) := rfl

theorem Holds.run (h : b.Holds due) (hroom : ∀ s ∈ submissions, b.Room regs s)
    (hrun : b.run regs submissions = some (results, b')) :
    (∀ result ∈ results, ∀ w ∈ result.writes, w.1 < b.bufferSize) ∧
      countdownRun b.period due submissions = some (results.map Submitted.invoked) := by
  induction submissions generalizing b due results with
  | nil =>
      cases hrun
      exact ⟨fun result hresult => absurd hresult List.not_mem_nil, rfl⟩
  | cons submission rest ih =>
      rw [run_cons, Option.bind_eq_some_iff] at hrun
      obtain ⟨⟨first, next⟩, hfirst, hrest⟩ := hrun
      obtain ⟨⟨last, final⟩, hlast, hresults⟩ := Option.bind_eq_some_iff.mp hrest
      cases hresults
      obtain ⟨hwrites, halike, due', hcount, hnext⟩ :=
        h.submit (hroom submission List.mem_cons_self) hfirst
      obtain ⟨hsize, hperiod, hkept⟩ := halike.keeps regs
      have hroom' : ∀ s ∈ rest, next.Room regs s := fun s hs =>
        hkept ▸ hroom s (List.mem_cons_of_mem submission hs)
      obtain ⟨hlater, hruns⟩ := ih hnext hroom' hlast
      rw [hsize] at hlater
      rw [hperiod] at hruns
      constructor
      · exact List.forall_mem_cons.mpr ⟨hwrites, hlater⟩
      · show (countdown b.period due submission).bind _ = _
        rw [hcount]
        show (countdownRun b.period due' rest).bind _ = _
        rw [hruns]
        rfl

end Backend

/-! ## The configuration -/

/-- The vertices of a run of the shader; nothing where the indices announce their number. -/
def verticesPerRun (regs : Fin 0x300 → UInt32) : Option Nat :=
  if gsConfigMode regs = 0 then some (gsInputNum regs / vsOutputNum regs)
  else if gsConfigMode regs = 1 then none
  else some (fixedVertexNum regs)

/-- The attributes of a vertex, or the float uniforms. -/
def capacity (regs : Fin 0x300 → UInt32) : Nat := if gsConfigMode regs = 0 then 16 else 96

/-- A number that is announced is not zero, and its vertices fit behind the first uniform; those
of a fixed primitive fit behind the uniform they start at. -/
def Fits (regs : Fin 0x300 → UInt32) : Submission → Prop
  | .index val => val ≠ 0 ∧ 1 + Backend.announcedSize (variableVertexMainNumMinus1 regs + 1).toNat
      val.toNat (vsOutputNum regs) ≤ 96
  | .vertex => gsConfigMode regs = 2 →
      (startIndex regs).toNat + vsOutputNum regs * fixedVertexNum regs ≤ 96

theorem gsInputNum_le (regs : Fin 0x300 → UInt32) : gsInputNum regs ≤ 16 := by
  have h : (gsMaxInputAttributeIndex regs).toNat ≤ 15 := bits_le 0 4 (regAt regs 0x289)
  unfold gsInputNum
  omega

variable {regs : Fin 0x300 → UInt32} {old : Option Backend} {b b' : Backend}
  {submissions : List Submission} {results : List Submitted}

/-- What a new backend takes from the registers. -/
def Backend.Configured (regs : Fin 0x300 → UInt32) (b : Backend) : Prop :=
  b.Holds b.period ∧ b.period = verticesPerRun regs ∧ b.bufferSize = capacity regs ∧
    ∀ s, Fits regs s → b.Room regs s

theorem configured_newPoint (hmode : gsConfigMode regs = 0)
    (h : Backend.newPoint regs = some b) : b.Configured regs := by
  unfold Backend.newPoint at h
  split_ifs at h with hasserted
  cases h
  have hdvd : vsOutputNum regs ∣ gsInputNum regs := Nat.dvd_of_mod_eq_zero hasserted.2.2
  have hn : 0 < vsOutputNum regs := Nat.succ_pos _
  refine ⟨⟨hn, ?_, ?_, gsInputNum_le regs, dvd_zero _⟩, ?_, ?_, fun s _ => ?_⟩
  · exact Nat.div_pos (Nat.le_of_dvd (Nat.succ_pos _) hdvd) hn
  · rw [Nat.zero_add, Nat.div_mul_cancel hdvd]
  · exact (if_pos hmode).symm
  · exact (if_pos hmode).symm
  · cases s <;> trivial

theorem configured_newVariablePrimitive (hmode : gsConfigMode regs = 1)
    (h : Backend.newVariablePrimitive regs = some b) : b.Configured regs := by
  unfold Backend.newVariablePrimitive at h
  split_ifs at h with hasserted
  cases h
  have hpoint : gsConfigMode regs ≠ 0 := fun hzero => by
    rw [hmode] at hzero
    cases hzero
  refine ⟨rfl, ?_, ?_, fun s hs => ?_⟩
  · rw [verticesPerRun, if_neg hpoint, if_pos hmode]
    rfl
  · exact (if_neg hpoint).symm
  · cases s with
    | index val => exact hs
    | vertex => trivial

theorem configured_newFixedPrimitive (hmode : gsConfigMode regs = 2)
    (h : Backend.newFixedPrimitive regs = some b) : b.Configured regs := by
  unfold Backend.newFixedPrimitive at h
  split_ifs at h with hasserted
  cases h
  have hpoint : gsConfigMode regs ≠ 0 := fun hzero => by
    rw [hmode] at hzero
    cases hzero
  have hvariable : gsConfigMode regs ≠ 1 := fun hone => by
    rw [hmode] at hone
    cases hone
  have hn : 0 < vsOutputNum regs := Nat.succ_pos _
  have hperiod : ((startIndex regs).toNat + vsOutputNum regs * fixedVertexNum regs -
      (startIndex regs).toNat) / vsOutputNum regs = fixedVertexNum regs := by
    rw [Nat.add_sub_cancel_left, Nat.mul_div_cancel_left _ hn]
  refine ⟨?_, ?_, ?_, fun s hs => ?_⟩
  · show Backend.Holds _ (some _)
    rw [hperiod]
    refine ⟨hn, Nat.succ_pos _, le_rfl, ?_, ?_⟩
    · rw [Nat.mul_comm]
    · rw [Nat.sub_self]
      exact dvd_zero _
  · rw [verticesPerRun, if_neg hpoint, if_neg hvariable]
    exact congrArg some hperiod
  · exact (if_neg hpoint).symm
  · cases s with
    | index val => trivial
    | vertex => exact hs hmode

theorem configured_of_reconfigure (h : reconfigure regs old = some (some b)) :
    b.Configured regs := by
  unfold reconfigure at h
  split_ifs at h with _ _ _ hpoint hvariable hfixed
  · cases h
  · obtain ⟨b', hnew, hb⟩ := Option.map_eq_some_iff.mp h
    cases hb
    exact configured_newPoint hpoint hnew
  · obtain ⟨b', hnew, hb⟩ := Option.map_eq_some_iff.mp h
    cases hb
    exact configured_newVariablePrimitive hvariable hnew
  · obtain ⟨b', hnew, hb⟩ := Option.map_eq_some_iff.mp h
    cases hb
    exact configured_newFixedPrimitive hfixed hnew

/-- Whatever is submitted to a backend that is configured, as it asks for it, and fits, is
written inside of the buffer, and the shader runs once for its vertices. -/
theorem run_inside (hconfigured : reconfigure regs old = some (some b))
    (hfits : ∀ s ∈ submissions, Fits regs s)
    (hrun : b.run regs submissions = some (results, b')) :
    (∀ result ∈ results, ∀ w ∈ result.writes, w.1 < capacity regs) ∧
      countdownRun (verticesPerRun regs) (verticesPerRun regs) submissions =
        some (results.map Submitted.invoked) := by
  obtain ⟨hholds, hperiod, hsize, hroom⟩ := configured_of_reconfigure hconfigured
  obtain ⟨hwrites, hruns⟩ := hholds.run (fun s hs => hroom s (hfits s hs)) hrun
  rw [hsize] at hwrites
  rw [hperiod] at hruns
  exact ⟨hwrites, hruns⟩

/-- The registers of a shader that takes one input of one attribute at a time. -/
def pointRegs : Fin 0x300 → UInt32 := fun i =>
  if i.val = 0x229 then 2 else if i.val = 0x289 then 0x08000000 else 0

theorem run_inside_point :
    (∀ result ∈ [Submitted.mk [(0, 0)] none true], ∀ w ∈ result.writes, w.1 < capacity pointRegs) ∧
      countdownRun (verticesPerRun pointRegs) (verticesPerRun pointRegs) [.vertex] =
        some ([Submitted.mk [(0, 0)] none true].map Submitted.invoked) :=
  @run_inside pointRegs none (.point 0 1 1) (.point 0 1 1) _ _ (by decide)
    (List.forall_mem_singleton.mpr fun h => by cases h) (by decide)

/-- The registers of a fixed primitive of one attribute that starts behind the last uniform. -/
def behindRegs : Fin 0x300 → UInt32 := fun i =>
  if i.val = 0x229 then 2 else if i.val = 0x252 then 0x00600002 else if i.val = 0x289 then 0x08000100 else 0

/-- A fixed primitive that starts behind the last uniform is written there. -/
theorem not_run_inside :
    ¬ ∀ (regs : Fin 0x300 → UInt32) (old : Option Backend) (b b' : Backend)
      (submissions : List Submission) (results : List Submitted),
      reconfigure regs old = some (some b) → b.run regs submissions = some (results, b') →
        (∀ result ∈ results, ∀ w ∈ result.writes, w.1 < capacity regs) ∧
          countdownRun (verticesPerRun regs) (verticesPerRun regs) submissions =
            some (results.map Submitted.invoked) := by
  intro h
  obtain ⟨hwrites, -⟩ := h behindRegs none (.fixedPrimitive 96 96 97 1)
    (.fixedPrimitive 96 96 97 1) [.vertex] [⟨[(96, 0)], none, true⟩] (by decide) (by decide)
  have hbehind := hwrites _ List.mem_cons_self (96, 0) List.mem_cons_self
  exact absurd hbehind (by decide)

end Cytrus.VideoCore.Pica
