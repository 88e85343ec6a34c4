import Cytrus.Cheats.CheatFile

/-!
# The grammar of a line of code

A line of code is written as eight hexadecimal digits, a separator, and eight
digits more. The constructor of `CheatLine` leaves the check to the parsers of
the standard library, which skip blanks, take a sign and a prefix, and stop at
the first character that is no digit. A line of the right length is valid as
soon as each of the three numbers has a first digit.
-/

namespace Cytrus.Cheats

open FileSys

variable {s : Chars} {c : UInt8} {line : Chars}

/-- The character is a hexadecimal digit. -/
def IsHex (c : UInt8) : Prop := (hexDigit c).isSome = true

instance (c : UInt8) : Decidable (IsHex c) := inferInstanceAs (Decidable (_ = true))

/-- The number that digits are written for. -/
def number (s : Chars) : Nat := s.foldl (fun n c => n * 16 + (hexDigit c).getD 0) 0

/-- The line is written as eight digits, a character, and eight digits. -/
def WellWritten (line : Chars) : Prop :=
  line.length = 17 ∧ (∀ c ∈ line.take 8, IsHex c) ∧ ∀ c ∈ line.drop 9, IsHex c

instance (line : Chars) : Decidable (WellWritten line) := inferInstanceAs (Decidable (_ ∧ _))

/-- The number of digits that name the type: `0xD` types have a second one. -/
def typeDigits (line : Chars) : Nat :=
  if line.head? = some 'D'.toUInt8 ∨ line.head? = some 'd'.toUInt8 then 2 else 1

/-- The fields that the digits of a line are written for. -/
def fields (line : Chars) : Instruction where
  type := .ofNumber (number (line.take (typeDigits line)))
  address := UInt32.ofNat (number (line.take 8)) &&& 0x0FFFFFFF
  value := UInt32.ofNat (number (line.drop 9))
  first := UInt32.ofNat (number (line.take 8))

/-- A line is valid if it is well written, and then has its fields; else it is of no type. -/
def CheatLine.ReadsAsWritten (line : CheatLine) : Prop :=
  (line.valid = true ↔ WellWritten line.cheatLine) ∧
    (WellWritten line.cheatLine → line.instruction = fields line.cheatLine) ∧
    (¬ WellWritten line.cheatLine → line.instruction.type = .null)

/-! ## What the number parser accepts -/

/-- A text after its blanks and one sign. -/
def afterSign (s : Chars) : Chars :=
  let s := s.dropWhile isSpace
  if s.head? = some '-'.toUInt8 ∨ s.head? = some '+'.toUInt8 then s.drop 1 else s

/-- A digit comes first after the blanks and the sign. -/
def StartsNumber (s : Chars) : Prop := ∃ c ∈ (afterSign s).head?, IsHex c

theorem not_isHex_of_isSpace (h : isSpace c = true) : ¬ IsHex c := by
  simp only [isSpace, decide_eq_true_eq, UInt8.le_iff_toNat_le, ← UInt8.toNat_inj] at h
  unfold IsHex hexDigit
  rw [if_neg, if_neg, if_neg]
  · simp
  all_goals
    rw [UInt8.le_iff_toNat_le, UInt8.le_iff_toNat_le]
    rintro ⟨hlo, -⟩
    have hlimit : 48 ≤ c.toNat := le_trans (by decide) hlo
    rcases h with h | h
    · have hspace : c.toNat = 32 := h
      omega
    · have hspace : c.toNat ≤ 13 := h.2
      omega

theorem takeWhile_hexDigit_ne_nil (s : Chars) :
    ((s.map hexDigit).takeWhile Option.isSome) ≠ [] ↔ ∃ c ∈ s.head?, IsHex c := by
  cases s with
  | nil => simp
  | cons c rest =>
      by_cases hc : (hexDigit c).isSome = true
      · simp [IsHex, hc]
      · simp [IsHex, hc]

/-- The text after a prefix, which counts only if a digit follows. -/
def afterPrefix (s : Chars) : Chars :=
  if s.head? = some '0'.toUInt8 ∧ (s[1]? = some 'x'.toUInt8 ∨ s[1]? = some 'X'.toUInt8) ∧
      ((s[2]?).bind hexDigit).isSome then s.drop 2
  else s

theorem stoul_eq (s : Chars) :
    stoul s =
      if ((afterPrefix (afterSign s)).map hexDigit).takeWhile Option.isSome = [] then none
      else some
        (let value := (((afterPrefix (afterSign s)).map hexDigit).takeWhile Option.isSome).foldl
          (fun n d => n * 16 + d.getD 0) 0
        if (s.dropWhile isSpace).head? = some '-'.toUInt8 then 2 ^ 64 - value else value) := rfl

theorem afterPrefix_head (s : Chars) :
    (∃ c ∈ (afterPrefix s).head?, IsHex c) ↔ ∃ c ∈ s.head?, IsHex c := by
  unfold afterPrefix
  split
  next h =>
    obtain ⟨hzero, -, hdigit⟩ := h
    rw [List.head?_drop]
    apply iff_of_true
    · obtain ⟨d, hd⟩ := Option.isSome_iff_exists.mp hdigit
      obtain ⟨c, hc, hcd⟩ := Option.bind_eq_some_iff.mp hd
      exact ⟨c, hc, by rw [IsHex, hcd, Option.isSome_some]⟩
    · exact ⟨'0'.toUInt8, hzero, by decide⟩
  next => rfl

theorem isSome_stoul_iff (s : Chars) : (stoul s).isSome = true ↔ StartsNumber s := by
  unfold StartsNumber
  rw [stoul_eq, ← afterPrefix_head, ← takeWhile_hexDigit_ne_nil]
  split <;> simp_all

theorem isSpace_of_isHex (h : IsHex c) : isSpace c = false := by
  rw [← Bool.not_eq_true]
  exact fun hspace => not_isHex_of_isSpace hspace h

theorem afterSign_cons (h : IsHex c) (rest : Chars) : afterSign (c :: rest) = c :: rest := by
  have hsign : ∀ d, ¬ IsHex d → c ≠ d := by
    rintro d hd rfl
    exact hd h
  have hminus := hsign '-'.toUInt8 (by decide)
  have hplus := hsign '+'.toUInt8 (by decide)
  simp [afterSign, isSpace_of_isHex h, hminus, hplus]

theorem stoul_of_isHex (hne : s ≠ []) (h : ∀ c ∈ s, IsHex c) : stoul s = some (number s) := by
  obtain ⟨d, rest, rfl⟩ := List.exists_cons_of_ne_nil hne
  have hd : IsHex d := h d (by simp)
  have hprefix : afterPrefix (d :: rest) = d :: rest := by
    apply if_neg
    rintro ⟨-, hx, -⟩
    rw [List.getElem?_cons_succ] at hx
    rcases hx with hx | hx
    · exact absurd (h _ (List.mem_cons_of_mem d (List.mem_of_getElem? hx))) (by decide)
    · exact absurd (h _ (List.mem_cons_of_mem d (List.mem_of_getElem? hx))) (by decide)
  have hdigits : ((d :: rest).map hexDigit).takeWhile Option.isSome = (d :: rest).map hexDigit := by
    apply List.takeWhile_eq_self_iff.mpr
    intro o ho
    obtain ⟨c, hc, rfl⟩ := List.mem_map.mp ho
    exact h c hc
  have hminus : ¬ ((d :: rest).dropWhile isSpace).head? = some '-'.toUInt8 := by
    rw [List.dropWhile_cons, isSpace_of_isHex hd]
    rintro hdash
    obtain rfl := Option.some.inj hdash
    exact absurd hd (by decide)
  rw [stoul_eq, afterSign_cons hd, hprefix, hdigits, if_neg (by simp), List.foldl_map, if_neg hminus]
  rfl

/-! ## What the constructor accepts -/

theorem startsNumber_cons (h : IsHex c) (rest : Chars) : StartsNumber (c :: rest) := by
  refine ⟨c, ?_, h⟩
  rw [afterSign_cons h]
  rfl

theorem startsNumber_singleton : StartsNumber [c] ↔ IsHex c := by
  constructor
  · rintro ⟨d, hd, hhex⟩
    unfold afterSign at hd
    by_cases hspace : isSpace c = true
    · simp [hspace] at hd
    · by_cases hsign : c = '-'.toUInt8 ∨ c = '+'.toUInt8
      · simp [hspace, hsign] at hd
      · simp only [hspace, List.dropWhile_cons, Bool.false_eq_true, if_false, List.head?_cons,
          Option.some.injEq, hsign, Option.mem_def] at hd
        exact hd ▸ hhex
  · exact fun h => startsNumber_cons h []

theorem parseLine_eq (hlength : line.length = 17) :
    parseLine line = (stoul (line.take (typeDigits line))).bind fun type =>
      (stoul (line.take 8)).bind fun first => (stoul (line.drop 9)).bind fun value =>
        some {
          type := .ofNumber type
          address := UInt32.ofNat first &&& 0x0FFFFFFF
          value := UInt32.ofNat value
          first := UInt32.ofNat first } := by
  have htake : (line.drop 9).take 8 = line.drop 9 := by
    apply List.take_of_length_le
    simp [hlength]
  unfold parseLine
  rw [if_neg (by omega), htake]
  rfl

theorem isSome_parseLine_of_length (hlength : line.length = 17) :
    (parseLine line).isSome = true ↔ StartsNumber (line.take (typeDigits line)) ∧
      StartsNumber (line.take 8) ∧ StartsNumber (line.drop 9) := by
  rw [parseLine_eq hlength, ← isSome_stoul_iff, ← isSome_stoul_iff, ← isSome_stoul_iff]
  cases stoul (line.take (typeDigits line)) <;> cases stoul (line.take 8) <;>
    cases stoul (line.drop 9) <;> simp

theorem isSome_parseLine_iff (line : Chars) : (parseLine line).isSome = true ↔
    line.length = 17 ∧ (∃ c ∈ line.head?, IsHex c) ∧ StartsNumber (line.drop 9) := by
  by_cases hlength : line.length = 17
  · obtain ⟨c, rest, rfl⟩ := List.exists_cons_of_ne_nil (l := line) (by
      rintro rfl
      simp at hlength)
    rw [isSome_parseLine_of_length hlength]
    have htype : StartsNumber ((c :: rest).take (typeDigits (c :: rest))) ↔ IsHex c := by
      by_cases hd : c = 'D'.toUInt8 ∨ c = 'd'.toUInt8
      · have hhex : IsHex c := by
          rcases hd with rfl | rfl <;> decide
        have htwo : typeDigits (c :: rest) = 1 + 1 := if_pos (by simpa using hd)
        rw [htwo, List.take_succ_cons]
        exact iff_of_true (startsNumber_cons hhex _) hhex
      · have hone : typeDigits (c :: rest) = 1 := if_neg (by simpa using hd)
        rw [hone, List.take_succ_cons, List.take_zero]
        exact startsNumber_singleton
    have hfirst : IsHex c → StartsNumber ((c :: rest).take 8) := fun h => startsNumber_cons h _
    rw [htype]
    simp only [hlength, List.head?_cons, Option.mem_def, Option.some.injEq, exists_eq_left',
      true_and]
    exact and_congr_right fun h => and_iff_right (hfirst h)
  · unfold parseLine
    rw [if_pos hlength]
    simp [hlength]

theorem parseLine_of_wellWritten (h : WellWritten line) : parseLine line = some (fields line) := by
  obtain ⟨hlength, hfirst, hvalue⟩ := h
  have hne : line ≠ [] := by
    rintro rfl
    simp at hlength
  have htype : ∀ c ∈ line.take (typeDigits line), IsHex c := by
    have hle : typeDigits line ≤ 8 := by
      unfold typeDigits
      split <;> omega
    exact fun c hc => hfirst c (List.take_subset_take_left line hle hc)
  have hpos : typeDigits line ≠ 0 := by
    unfold typeDigits
    split <;> omega
  rw [parseLine_eq hlength, stoul_of_isHex (by simp [hne, hpos]) htype,
    stoul_of_isHex (by simp [hne]) hfirst,
    stoul_of_isHex (List.ne_nil_of_length_pos (by simp [hlength])) hvalue]
  rfl

/-- A line reads as it is written exactly if it has another length, is well written, starts with
no digit, or has no number after the separator. -/
theorem readsAsWritten_iff (line : CheatLine) : line.ReadsAsWritten ↔
    line.cheatLine.length ≠ 17 ∨ WellWritten line.cheatLine ∨
      ¬ (∃ c ∈ line.cheatLine.head?, IsHex c) ∨ ¬ StartsNumber (line.cheatLine.drop 9) := by
  have hvalid := isSome_parseLine_iff line.cheatLine
  unfold CheatLine.ReadsAsWritten CheatLine.valid CheatLine.instruction
  by_cases hwell : WellWritten line.cheatLine
  · rw [parseLine_of_wellWritten hwell]
    simp [hwell]
  · by_cases haccepted : (parseLine line.cheatLine).isSome = true
    · apply iff_of_false
      · exact fun h => hwell (h.1.mp haccepted)
      · have haccepts := hvalid.mp haccepted
        rintro (hlength | hwell' | hstart | hvalue)
        · exact hlength haccepts.1
        · exact hwell hwell'
        · exact hstart haccepts.2.1
        · exact hvalue haccepts.2.2
    · have hnone : parseLine line.cheatLine = none := Option.not_isSome_iff_eq_none.mp haccepted
      have hnot := mt hvalid.mpr haccepted
      apply iff_of_true
      · refine ⟨iff_of_false haccepted hwell, fun h => absurd h hwell, fun _ => ?_⟩
        rw [hnone]
        rfl
      · by_contra hcond
        simp only [not_or, not_not] at hcond
        exact hnot ⟨hcond.1, hcond.2.2.1, hcond.2.2.2⟩

/-- Anything may follow the first digit of a number. -/
theorem not_readsAsWritten_stopped :
    ¬ CheatLine.ReadsAsWritten ⟨"1zzzzzzz 12345678".toList.map Char.toUInt8⟩ := by
  intro h
  exact absurd (h.1.mp (by decide +kernel)) (by decide +kernel)

end Cytrus.Cheats
