import Mathlib
import Cytrus.Cheats.GatewayCheat
import Cytrus.FileSys.PathParser

/-!
# Files of cheats

A list of cheats is written section by section, and read line by line. What the
reader has seen of a section is flushed at the next one, if there is code.

## Main results

* `readLines_toString`: what reading a section does to the reader
* `loadFile_toString_iff`: when the cheats with code are read back

## Implementation notes

The file is there, and its contents are a parameter. The numbers of an invalid
line are not initialised in the source; here they are zero. No proof uses them.
-/

namespace Cytrus.Cheats

open FileSys

/-! ## Lines of code -/

def newline : UInt8 := '\n'.toUInt8

def bracket : UInt8 := '['.toUInt8

def star : UInt8 := '*'.toUInt8

def CheatType.ofNumber : Nat → CheatType
  | 0x00 => .write32
  | 0x01 => .write16
  | 0x02 => .write8
  | 0x03 => .greaterThan32
  | 0x04 => .lessThan32
  | 0x05 => .equalTo32
  | 0x06 => .notEqualTo32
  | 0x07 => .greaterThan16WithMask
  | 0x08 => .lessThan16WithMask
  | 0x09 => .equalTo16WithMask
  | 0x0A => .notEqualTo16WithMask
  | 0x0B => .loadOffset
  | 0x0C => .loop
  | 0xD0 => .terminator
  | 0xD1 => .loopExecuteVariant
  | 0xD2 => .fullTerminator
  | 0xD3 => .setOffset
  | 0xD4 => .addValue
  | 0xD5 => .setValue
  | 0xD6 => .incrementiveWrite32
  | 0xD7 => .incrementiveWrite16
  | 0xD8 => .incrementiveWrite8
  | 0xD9 => .load32
  | 0xDA => .load16
  | 0xDB => .load8
  | 0xDC => .addOffset
  | 0xDD => .joker
  | 0x0E => .patch
  | _ => .unnamed

/-- The value of a hexadecimal digit. -/
def hexDigit (c : UInt8) : Option Nat :=
  if '0'.toUInt8 ≤ c ∧ c ≤ '9'.toUInt8 then some (c.toNat - '0'.toNat)
  else if 'a'.toUInt8 ≤ c ∧ c ≤ 'f'.toUInt8 then some (c.toNat - 'a'.toNat + 10)
  else if 'A'.toUInt8 ≤ c ∧ c ≤ 'F'.toUInt8 then some (c.toNat - 'A'.toNat + 10)
  else none

def isSpace (c : UInt8) : Bool := c = 32 ∨ 9 ≤ c ∧ c ≤ 13

/-- `std::stoul` for base 16, which throws without a digit. -/
def stoul (s : Chars) : Option Nat :=
  let s := s.dropWhile isSpace
  let negative := s.head? = some '-'.toUInt8
  let s := if negative ∨ s.head? = some '+'.toUInt8 then s.drop 1 else s
  let prefixed := s.head? = some '0'.toUInt8 ∧
    (s[1]? = some 'x'.toUInt8 ∨ s[1]? = some 'X'.toUInt8) ∧ ((s[2]?).bind hexDigit).isSome
  let s := if prefixed then s.drop 2 else s
  let digits := (s.map hexDigit).takeWhile Option.isSome
  let value := digits.foldl (fun n d => n * 16 + d.getD 0) 0
  if digits = [] then none else some (if negative then 2 ^ 64 - value else value)

/-- What the constructor of `CheatLine` finds in a line, if the line is valid. -/
def parseLine (line : Chars) : Option Instruction := do
  if line.length ≠ 17 then none
  else
    let typed := if line.head? = some 'D'.toUInt8 ∨ line.head? = some 'd'.toUInt8 then 2 else 1
    let type ← stoul (line.take typed)
    let first ← stoul (line.take 8)
    let value ← stoul ((line.drop 9).take 8)
    return {
      type := .ofNumber type
      address := UInt32.ofNat first &&& 0x0FFFFFFF
      value := UInt32.ofNat value
      first := UInt32.ofNat first }

/-- `CheatLine`. The text decides what the constructor makes of the rest. -/
structure CheatLine where
  cheatLine : Chars
  deriving DecidableEq, Repr

def CheatLine.valid (line : CheatLine) : Bool := (parseLine line.cheatLine).isSome

/-- The other members of a `CheatLine`. -/
def CheatLine.instruction (line : CheatLine) : Instruction :=
  (parseLine line.cheatLine).getD { type := .null }

structure GatewayCheat where
  name : Chars
  cheatLines : List CheatLine
  comments : Chars
  enabled : Bool := false
  deriving DecidableEq, Repr

/-- `Execute` of a cheat, after so many iterations. -/
def GatewayCheat.execute {μ : Type*} (platform : Platform μ) (cheat : GatewayCheat) (memory : μ)
    (iterations : Nat) : Machine μ :=
  Cheats.execute platform (cheat.cheatLines.map CheatLine.instruction) memory iterations

/-! ## Writing -/

def enabledText : Chars := "*citra_enabled".toList.map Char.toUInt8

def GatewayCheat.getCode (cheat : GatewayCheat) : Chars :=
  cheat.cheatLines.flatMap fun line => line.cheatLine ++ [newline]

def GatewayCheat.commentLines (cheat : GatewayCheat) : List Chars := splitString newline cheat.comments

def GatewayCheat.toString (cheat : GatewayCheat) : Chars :=
  [bracket] ++ cheat.name ++ [']'.toUInt8, newline] ++
    (if cheat.enabled then enabledText ++ [newline] else []) ++
    cheat.commentLines.flatMap (fun line => [star] ++ line ++ [newline]) ++
    (cheat.getCode ++ [newline])

/-! ## Reading -/

/-- The characters that `StripSpaces` strips. -/
def isBlank (c : UInt8) : Bool :=
  c = ' '.toUInt8 ∨ c = '\t'.toUInt8 ∨ c = '\r'.toUInt8 ∨ c = newline

def stripSpaces (line : Chars) : Chars :=
  ((line.dropWhile isBlank).reverse.dropWhile isBlank).reverse

/-- The lines that `std::getline` delivers up to the end of a file. -/
def fileLines : Chars → List Chars
  | [] => [[]]
  | c :: rest =>
      if c = newline then [] :: fileLines rest
      else
        match fileLines rest with
        | [] => [[c]]
        | line :: lines => (c :: line) :: lines

/-- The variables of `LoadFile`. -/
structure Loader where
  cheats : List GatewayCheat := []
  comments : Chars := []
  cheatLines : List CheatLine := []
  name : Chars := []
  enabled : Bool := false
  deriving DecidableEq, Repr

/-- The cheat that the lines up to now are. -/
def Loader.current (s : Loader) : GatewayCheat := ⟨s.name, s.cheatLines, s.comments, s.enabled⟩

/-- The body of the loop of `LoadFile`. -/
def Loader.readLine (s : Loader) (line : Chars) : Loader :=
  let line := stripSpaces (line.filter fun c => c ≠ 0)
  if 2 ≤ line.length ∧ line.head? = some bracket then
    let s := if s.cheatLines ≠ [] then { s with cheats := s.cheats ++ [s.current], enabled := false } else s
    { s with name := (line.drop 1).take (line.length - 2), cheatLines := [], comments := [] }
  else if line.head? = some star then
    if line = enabledText then { s with enabled := true }
    else { s with comments := s.comments ++ (line.drop 1 ++ [newline]) }
  else if line ≠ [] then { s with cheatLines := s.cheatLines ++ [⟨line⟩] }
  else s

/-- `LoadFile`, of a file with these contents. -/
def loadFile (contents : Chars) : List GatewayCheat :=
  let s := (fileLines contents).foldl Loader.readLine {}
  if s.cheatLines ≠ [] then s.cheats ++ [s.current] else s.cheats

/-! ## The lines of a section -/

/-- A line that reading it does not change. -/
structure Plain (line : Chars) : Prop where
  unbroken : newline ∉ line
  noNul : (0 : UInt8) ∉ line
  front : ∀ c ∈ line.head?, isBlank c = false
  back : ∀ c ∈ line.getLast?, isBlank c = false

instance (line : Chars) : Decidable (Plain line) :=
  decidable_of_iff (newline ∉ line ∧ (0 : UInt8) ∉ line ∧ (∀ c ∈ line.head?, isBlank c = false) ∧
      ∀ c ∈ line.getLast?, isBlank c = false)
    ⟨fun h => ⟨h.1, h.2.1, h.2.2.1, h.2.2.2⟩, fun h => ⟨h.unbroken, h.noNul, h.front, h.back⟩⟩

def sectionLines (cheat : GatewayCheat) : List Chars :=
  ([bracket] ++ cheat.name ++ [']'.toUInt8]) ::
    ((if cheat.enabled then [enabledText] else []) ++
      (cheat.commentLines.map (star :: ·) ++ (cheat.cheatLines.map CheatLine.cheatLine ++ [[]])))

section Lines

variable {line rest : Chars} {lines : List Chars} {cheat : GatewayCheat}

theorem toString_eq : cheat.toString = (sectionLines cheat).flatMap (· ++ [newline]) := by
  simp only [GatewayCheat.toString, GatewayCheat.getCode, sectionLines, List.flatMap_cons,
    List.flatMap_append, List.flatMap_map, List.append_assoc,
    List.nil_append, List.cons_append]
  cases cheat.enabled <;> simp

theorem fileLines_line (h : newline ∉ line) :
    fileLines (line ++ newline :: rest) = line :: fileLines rest := by
  induction line with
  | nil => simp [fileLines]
  | cons c line ih =>
      have hc : c ≠ newline := fun hc => h (hc ▸ List.mem_cons_self)
      have hline := ih fun hmem => h (List.mem_cons_of_mem c hmem)
      rw [List.cons_append, fileLines, if_neg hc, hline]

theorem fileLines_lines (h : ∀ line ∈ lines, newline ∉ line) :
    fileLines (lines.flatMap (· ++ [newline]) ++ rest) = lines ++ fileLines rest := by
  induction lines with
  | nil => rfl
  | cons line lines ih =>
      have hline := h line List.mem_cons_self
      have hlines := ih fun x hx => h x (List.mem_cons_of_mem line hx)
      rw [List.flatMap_cons, List.append_assoc, List.append_assoc, List.singleton_append,
        fileLines_line hline, hlines, List.cons_append]

theorem dropWhile_front (h : ∀ c ∈ line.head?, isBlank c = false) :
    line.dropWhile isBlank = line := by
  cases line with
  | nil => rfl
  | cons c line => rw [List.dropWhile_cons, h c rfl]; rfl

theorem stripSpaces_plain (h : Plain line) : stripSpaces line = line := by
  have hback : ∀ c ∈ line.reverse.head?, isBlank c = false := by
    rw [List.head?_reverse]
    exact h.back
  rw [stripSpaces, dropWhile_front h.front, dropWhile_front hback, List.reverse_reverse]

theorem filter_plain (h : Plain line) : (line.filter fun c => c ≠ 0) = line := by
  refine List.filter_eq_self.mpr fun c hc => ?_
  have hne : c ≠ 0 := fun h0 => h.noNul (h0 ▸ hc)
  simpa using hne

theorem plain_nil : Plain [] :=
  ⟨List.not_mem_nil, List.not_mem_nil, fun _ hc => (nomatch hc), fun _ hc => (nomatch hc)⟩

theorem Plain.wrap (h : Plain line) {a : UInt8} (ha : a ≠ newline ∧ a ≠ 0 ∧ isBlank a = false) :
    Plain (a :: line) := by
  refine ⟨?_, ?_, ?_, ?_⟩
  · simpa using ⟨ha.1.symm, h.unbroken⟩
  · simpa using ⟨ha.2.1.symm, h.noNul⟩
  · intro c hc
    simp only [List.head?_cons, Option.mem_some_iff] at hc
    exact hc ▸ ha.2.2
  · intro c hc
    rw [List.getLast?_cons] at hc
    cases hlast : line.getLast? with
    | none =>
        rw [hlast] at hc
        simp only [Option.getD_none, Option.mem_some_iff] at hc
        exact hc ▸ ha.2.2
    | some d =>
        rw [hlast] at hc
        simp only [Option.getD_some, Option.mem_some_iff] at hc
        exact hc ▸ h.back d hlast

theorem Plain.close (h : Plain line) (hne : line ≠ []) {a : UInt8}
    (ha : a ≠ newline ∧ a ≠ 0 ∧ isBlank a = false) : Plain (line ++ [a]) := by
  refine ⟨?_, ?_, ?_, ?_⟩
  · simpa using ⟨h.unbroken, ha.1.symm⟩
  · simpa using ⟨h.noNul, ha.2.1.symm⟩
  · intro c hc
    rw [List.head?_append_of_ne_nil _ hne] at hc
    exact h.front c hc
  · intro c hc
    rw [List.getLast?_append_of_ne_nil _ (by simp)] at hc
    simp only [List.getLast?_singleton, Option.mem_some_iff] at hc
    exact hc ▸ ha.2.2

end Lines

/-- A cheat that its section describes: no line of it looks like something else. -/
structure WellFormed (cheat : GatewayCheat) : Prop where
  name : Plain cheat.name
  comments : ∀ line ∈ cheat.commentLines, Plain line
  code : ∀ line ∈ cheat.cheatLines, Plain line.cheatLine ∧
    line.cheatLine.head? ≠ some bracket ∧ line.cheatLine.head? ≠ some star

instance (cheat : GatewayCheat) : Decidable (WellFormed cheat) :=
  decidable_of_iff (Plain cheat.name ∧ (∀ line ∈ cheat.commentLines, Plain line) ∧
      ∀ line ∈ cheat.cheatLines, Plain line.cheatLine ∧
        line.cheatLine.head? ≠ some bracket ∧ line.cheatLine.head? ≠ some star)
    ⟨fun h => ⟨h.1, h.2.1, h.2.2⟩, fun h => ⟨h.name, h.comments, h.code⟩⟩

/-! ## Reading a section -/

/-- The comment line that reads like the marker. -/
def marker : Chars := enabledText.drop 1

/-- The reader at the start of a section. -/
def Loader.flush (s : Loader) : Loader :=
  if s.cheatLines ≠ [] then { s with cheats := s.cheats ++ [s.current], enabled := false } else s

section Reading

variable {line : Chars} {cheat : GatewayCheat} {s : Loader}

theorem readLine_plain (h : Plain line) : s.readLine line =
    if 2 ≤ line.length ∧ line.head? = some bracket then
      { s.flush with name := (line.drop 1).take (line.length - 2), cheatLines := [], comments := [] }
    else if line.head? = some star then
      if line = enabledText then { s with enabled := true }
      else { s with comments := s.comments ++ (line.drop 1 ++ [newline]) }
    else if line ≠ [] then { s with cheatLines := s.cheatLines ++ [⟨line⟩] }
    else s := by
  rw [Loader.readLine]
  simp only [filter_plain h, stripSpaces_plain h]
  rfl

theorem readLine_header (h : Plain cheat.name) :
    s.readLine ([bracket] ++ cheat.name ++ [']'.toUInt8]) =
      { s.flush with name := cheat.name, cheatLines := [], comments := [] } := by
  have hplain : Plain ([bracket] ++ cheat.name ++ [']'.toUInt8]) :=
    (h.wrap (by decide)).close (by simp) (by decide)
  have hlength : ([bracket] ++ cheat.name ++ [']'.toUInt8]).length = cheat.name.length + 2 := by
    simp
  rw [readLine_plain hplain, if_pos ⟨by omega, rfl⟩, hlength]
  simp

theorem readLine_enabled : s.readLine enabledText = { s with enabled := true } := by
  have hplain : Plain enabledText := ⟨by decide +kernel, by decide +kernel, by decide +kernel, by decide +kernel⟩
  rw [readLine_plain hplain, if_neg (by decide), if_pos (by decide), if_pos rfl]

theorem readLine_comment (h : Plain line) : s.readLine (star :: line) =
    if line = marker then { s with enabled := true }
    else { s with comments := s.comments ++ (line ++ [newline]) } := by
  have hmarker : star :: line = enabledText ↔ line = marker := by
    have henabled : enabledText = star :: marker := rfl
    rw [henabled, List.cons_inj_right]
  have hbracket : (star :: line).head? ≠ some bracket :=
    fun h => absurd (Option.some.inj h) (by decide)
  rw [readLine_plain (h.wrap (by decide)), if_neg fun h => hbracket h.2, if_pos List.head?_cons]
  simp only [hmarker, List.drop_one, List.tail_cons]

theorem readLine_code (h : Plain line) (hbracket : line.head? ≠ some bracket)
    (hstar : line.head? ≠ some star) :
    s.readLine line = if line ≠ [] then { s with cheatLines := s.cheatLines ++ [⟨line⟩] } else s := by
  rw [readLine_plain h, if_neg fun h => hbracket h.2, if_neg hstar]

theorem readLines_comments {comments : List Chars} (h : ∀ line ∈ comments, Plain line) :
    (comments.map (star :: ·)).foldl Loader.readLine s =
      { s with
        enabled := s.enabled || decide (marker ∈ comments)
        comments := s.comments ++
          (comments.filter fun line => line ≠ marker).flatMap (· ++ [newline]) } := by
  induction comments generalizing s with
  | nil => simp
  | cons line comments ih =>
      have hline := h line List.mem_cons_self
      rw [List.map_cons, List.foldl_cons, readLine_comment hline,
        ih fun x hx => h x (List.mem_cons_of_mem line hx)]
      by_cases hmarker : line = marker
      · simp [hmarker]
      · simp [hmarker, Ne.symm hmarker]

/-- The lines of code that are not empty. -/
def codeOf (lines : List CheatLine) : List CheatLine := lines.filter fun line => line.cheatLine ≠ []

theorem readLines_code {lines : List CheatLine} (h : ∀ line ∈ lines, Plain line.cheatLine ∧
    line.cheatLine.head? ≠ some bracket ∧ line.cheatLine.head? ≠ some star) :
    (lines.map CheatLine.cheatLine).foldl Loader.readLine s =
      { s with cheatLines := s.cheatLines ++ codeOf lines } := by
  induction lines generalizing s with
  | nil => simp [codeOf]
  | cons line lines ih =>
      obtain ⟨hplain, hbracket, hstar⟩ := h line List.mem_cons_self
      rw [List.map_cons, List.foldl_cons, readLine_code hplain hbracket hstar,
        ih fun x hx => h x (List.mem_cons_of_mem line hx)]
      by_cases hempty : line.cheatLine = []
      · simp [codeOf, hempty]
      · simp [codeOf, hempty]

/-- A section switches the marker on. -/
def marks (cheat : GatewayCheat) : Bool := cheat.enabled || decide (marker ∈ cheat.commentLines)

/-- What is read back of the comments. -/
def readComments (cheat : GatewayCheat) : Chars :=
  (cheat.commentLines.filter fun line => line ≠ marker).flatMap (· ++ [newline])

theorem readLines_section (h : WellFormed cheat) :
    (sectionLines cheat).foldl Loader.readLine s =
      { s.flush with
        name := cheat.name
        cheatLines := codeOf cheat.cheatLines
        comments := readComments cheat
        enabled := s.flush.enabled || marks cheat } := by
  have hblank (t : Loader) : t.readLine [] = t := by
    rw [readLine_plain plain_nil, if_neg (by simp), if_neg (by simp), if_neg (by simp)]
  rw [sectionLines, List.foldl_cons, readLine_header h.name, List.foldl_append, List.foldl_append,
    List.foldl_append, List.foldl_cons, List.foldl_nil, hblank]
  cases henabled : cheat.enabled with
  | true =>
      simp only [if_true, List.foldl_cons, List.foldl_nil, readLine_enabled]
      rw [readLines_comments h.comments, readLines_code h.code]
      simp [readComments, marks, henabled]
  | false =>
      simp only [Bool.false_eq_true, if_false, List.foldl_nil]
      rw [readLines_comments h.comments, readLines_code h.code]
      simp [readComments, marks, henabled]

end Reading

/-! ## Reading a file back -/

/-- What is loaded from a list of cheats, where `pending` says that the marker is on. -/
def loaded : Bool → List GatewayCheat → List GatewayCheat
  | _, [] => []
  | pending, cheat :: rest =>
      if codeOf cheat.cheatLines = [] then loaded (pending || marks cheat) rest
      else ⟨cheat.name, codeOf cheat.cheatLines, readComments cheat, pending || marks cheat⟩ ::
        loaded false rest

/-- The cheats that a reader has, all lines being read. -/
def Loader.finish (s : Loader) : List GatewayCheat :=
  if s.cheatLines ≠ [] then s.cheats ++ [s.current] else s.cheats

section Files

variable {cheats : List GatewayCheat} {s : Loader} {pending : Bool}

theorem finish_flush : s.finish = s.flush.cheats := by
  unfold Loader.finish Loader.flush
  split <;> rfl

theorem finish_sections (h : ∀ cheat ∈ cheats, WellFormed cheat) :
    ((cheats.flatMap sectionLines).foldl Loader.readLine s).finish =
      s.flush.cheats ++ loaded s.flush.enabled cheats := by
  induction cheats generalizing s with
  | nil => simp [loaded, finish_flush]
  | cons cheat cheats ih =>
      rw [List.flatMap_cons, List.foldl_append, readLines_section (h cheat List.mem_cons_self),
        ih fun x hx => h x (List.mem_cons_of_mem cheat hx), loaded]
      by_cases hcode : codeOf cheat.cheatLines = []
      · simp [Loader.flush, hcode]
      · simp [Loader.flush, hcode, Loader.current]

theorem unbroken_section {cheat : GatewayCheat} (h : WellFormed cheat) :
    ∀ line ∈ sectionLines cheat, newline ∉ line := by
  intro line hline
  simp only [sectionLines, List.mem_cons, List.mem_append, List.mem_map, List.not_mem_nil,
    or_false] at hline
  rcases hline with rfl | hline | ⟨comment, hcomment, rfl⟩ | ⟨code, hcode, rfl⟩ | rfl
  · have hname := h.name.unbroken
    simp only [List.mem_append, List.mem_singleton, not_or]
    exact ⟨⟨by decide, hname⟩, by decide⟩
  · split at hline
    · rw [List.mem_singleton.mp hline]
      decide
    · cases hline
  · have hunbroken := (h.comments comment hcomment).unbroken
    simp only [List.mem_cons, not_or]
    exact ⟨by decide, hunbroken⟩
  · exact (h.code code hcode).1.unbroken
  · exact List.not_mem_nil

theorem loadFile_toString (h : ∀ cheat ∈ cheats, WellFormed cheat) :
    loadFile (cheats.flatMap GatewayCheat.toString) = loaded false cheats := by
  have hlines : fileLines (cheats.flatMap GatewayCheat.toString) =
      cheats.flatMap sectionLines ++ [[]] := by
    have hjoin : cheats.flatMap GatewayCheat.toString =
        (cheats.flatMap sectionLines).flatMap (· ++ [newline]) ++ [] := by
      rw [List.flatMap_assoc, List.append_nil]
      exact congrArg (cheats.flatMap ·) (funext fun cheat => toString_eq)
    have hunbroken : ∀ line ∈ cheats.flatMap sectionLines, newline ∉ line := by
      intro line hline
      obtain ⟨cheat, hcheat, hline⟩ := List.mem_flatMap.mp hline
      exact unbroken_section (h cheat hcheat) line hline
    rw [hjoin, fileLines_lines hunbroken]
    rfl
  have hblank (t : Loader) : t.readLine [] = t := by
    rw [readLine_plain plain_nil, if_neg (by simp), if_neg (by simp), if_neg (by simp)]
  have hfinish := @finish_sections cheats {} h
  rw [loadFile, hlines, List.foldl_append, List.foldl_cons, List.foldl_nil, hblank]
  exact hfinish

/-- What the round trip is to keep of a cheat. -/
def view (cheat : GatewayCheat) : Chars × List Chars × List CheatLine × Bool :=
  (cheat.name, cheat.commentLines, cheat.cheatLines, cheat.enabled)

/-- The cheats that have code are read back. -/
def ReadsBack (cheats : List GatewayCheat) : Prop :=
  (loadFile (cheats.flatMap GatewayCheat.toString)).map view =
    (cheats.filter fun cheat => cheat.cheatLines ≠ []).map view

/-- No line of code is empty, no comment of a cheat with code reads like the marker, and the marker
is not on where a disabled cheat with code starts. -/
def Faithful : Bool → List GatewayCheat → Prop
  | _, [] => True
  | pending, cheat :: rest =>
      if cheat.cheatLines = [] then Faithful (pending || marks cheat) rest
      else (∀ line ∈ cheat.cheatLines, line.cheatLine ≠ []) ∧ marker ∉ cheat.commentLines ∧
        (pending = true → cheat.enabled = true) ∧ Faithful false rest

instance (cheats : List GatewayCheat) : Decidable (ReadsBack cheats) :=
  inferInstanceAs (Decidable (_ = _))

theorem splitString_lines {lines : List Chars} (h : ∀ line ∈ lines, newline ∉ line) :
    splitString newline (lines.flatMap (· ++ [newline])) = lines := by
  induction lines with
  | nil => rfl
  | cons line lines ih =>
      have hline : splitString newline (line ++ [newline]) = [line] := by
        have hunbroken := h line List.mem_cons_self
        clear h ih
        induction line with
        | nil => rfl
        | cons c line ih =>
            have hc : c ≠ newline := fun hc => hunbroken (hc ▸ List.mem_cons_self)
            rw [List.cons_append, splitString, if_neg hc,
              ih fun hmem => hunbroken (List.mem_cons_of_mem c hmem)]
      rw [List.flatMap_cons, List.append_assoc, List.singleton_append, splitString_append, hline,
        ih fun x hx => h x (List.mem_cons_of_mem line hx), List.singleton_append]

theorem length_loaded_le :
    (loaded pending cheats).length ≤ (cheats.filter fun cheat => cheat.cheatLines ≠ []).length := by
  induction cheats generalizing pending with
  | nil => exact le_rfl
  | cons cheat cheats ih =>
      rw [loaded]
      by_cases hcode : cheat.cheatLines = []
      · simpa [hcode, codeOf] using ih
      · split
        · simpa [hcode] using ih.trans (Nat.le_succ _)
        · simpa [hcode] using ih

theorem codeOf_eq_self {lines : List CheatLine} :
    codeOf lines = lines ↔ ∀ line ∈ lines, line.cheatLine ≠ [] := by
  simp [codeOf, List.filter_eq_self]

theorem commentLines_read {cheat : GatewayCheat} (h : WellFormed cheat) :
    splitString newline (readComments cheat) =
      cheat.commentLines.filter fun line => line ≠ marker :=
  splitString_lines fun line hline => (h.comments line (List.mem_filter.mp hline).1).unbroken

theorem view_head_iff {cheat : GatewayCheat} (h : WellFormed cheat) :
    view ⟨cheat.name, codeOf cheat.cheatLines, readComments cheat, pending || marks cheat⟩ =
        view cheat ↔
      (∀ line ∈ cheat.cheatLines, line.cheatLine ≠ []) ∧ marker ∉ cheat.commentLines ∧
        (pending = true → cheat.enabled = true) := by
  have hcomments : (cheat.commentLines.filter fun line => line ≠ marker) = cheat.commentLines ↔
      marker ∉ cheat.commentLines := by
    rw [List.filter_eq_self]
    constructor
    · intro hall hmem
      simpa using hall marker hmem
    · intro hnot line hline
      have hne : line ≠ marker := fun heq => hnot (heq ▸ hline)
      simpa using hne
  have hview : view ⟨cheat.name, codeOf cheat.cheatLines, readComments cheat, pending || marks cheat⟩ =
      (cheat.name, splitString newline (readComments cheat), codeOf cheat.cheatLines,
        pending || marks cheat) := rfl
  rw [hview, view, commentLines_read h]
  simp only [Prod.mk.injEq, true_and, hcomments, codeOf_eq_self]
  constructor
  · rintro ⟨hmarker, hcode, henabled⟩
    refine ⟨hcode, hmarker, fun hpending => ?_⟩
    rw [← henabled, hpending, Bool.true_or]
  · rintro ⟨hcode, hmarker, henabled⟩
    refine ⟨hmarker, hcode, ?_⟩
    rw [marks, decide_eq_false hmarker, Bool.or_false]
    cases pending with
    | false => rfl
    | true => rw [henabled rfl, Bool.or_self]

theorem view_loaded_iff (h : ∀ cheat ∈ cheats, WellFormed cheat) :
    (loaded pending cheats).map view =
      (cheats.filter fun cheat => cheat.cheatLines ≠ []).map view ↔ Faithful pending cheats := by
  induction cheats generalizing pending with
  | nil => simp [loaded, Faithful]
  | cons cheat cheats ih =>
      have hcheat := h cheat List.mem_cons_self
      have hrest (p : Bool) := @ih p fun x hx => h x (List.mem_cons_of_mem cheat hx)
      rw [loaded, Faithful]
      by_cases hnone : cheat.cheatLines = []
      · rw [if_pos (by rw [hnone]; rfl), if_pos hnone, List.filter_cons_of_neg (by simp [hnone]), hrest]
      · rw [if_neg hnone, List.filter_cons_of_pos (by simp [hnone]), List.map_cons]
        by_cases hcode : codeOf cheat.cheatLines = []
        · -- too few cheats are read back
          rw [if_pos hcode]
          constructor
          · intro heq
            have hlength := congrArg List.length heq
            have hle := @length_loaded_le cheats (pending || marks cheat)
            rw [List.length_map, List.length_cons, List.length_map] at hlength
            omega
          · rintro ⟨hlines, -⟩
            exact absurd ((codeOf_eq_self.mpr hlines).symm.trans hcode) hnone
        · rw [if_neg hcode, List.map_cons, List.cons.injEq, view_head_iff hcheat, hrest]
          simp only [and_assoc]

end Files

/-- The cheats that have code are read back if, and only if, nothing in their sections is empty or
reads like the marker, and no section without code switches the marker on for a disabled cheat. -/
theorem loadFile_toString_iff (cheats : List GatewayCheat) (h : ∀ cheat ∈ cheats, WellFormed cheat) :
    ReadsBack cheats ↔ Faithful false cheats := by
  rw [ReadsBack, loadFile_toString h]
  exact view_loaded_iff h

/-- A line of code. -/
def someCode : CheatLine := ⟨"00100000 00000001".toList.map Char.toUInt8⟩

/-- An enabled cheat with a comment and code, and a disabled one. -/
def twoCheats : List GatewayCheat :=
  [⟨['A'.toUInt8], [someCode], ['x'.toUInt8, newline], true⟩, ⟨['B'.toUInt8], [someCode], [], false⟩]

theorem loadFile_twoCheats : ReadsBack twoCheats :=
  (loadFile_toString_iff twoCheats (by decide +kernel)).mpr
    ⟨by decide, by decide, by decide, by decide, by decide, by decide, trivial⟩

/-- An enabled cheat without code, and a disabled one. -/
def leakingCheats : List GatewayCheat :=
  [⟨['A'.toUInt8], [], [], true⟩, ⟨['B'.toUInt8], [someCode], [], false⟩]

/-- An enabled cheat without code enables the next one. -/
theorem loadFile_leaks :
    loadFile (leakingCheats.flatMap GatewayCheat.toString) = [⟨['B'.toUInt8], [someCode], [], true⟩] ∧
      (∀ cheat ∈ leakingCheats, cheat.name ≠ [] ∧ WellFormed cheat) ∧ ¬ReadsBack leakingCheats := by
  refine ⟨?_, ?_, ?_⟩ <;> decide +kernel

end Cytrus.Cheats
