import Mathlib
import Cytrus.Common.StringUtil
import Cytrus.Support.OrderedMap

/-!
# Parameter packages as strings

A `ParamPackage` is a map of strings that is written out as a list of pairs.
The separators and the escape character are escaped in three passes over each
key and value, and taken back in three passes.

A pair whose value is empty ends with the separator of key and value, so that
it is read back as one field, and is dropped.

## Main results

* `ofString_serialize`: what is read back is the map without its empty values
* `ofString_serialize_iff`: the maps that are read back as they were

## Implementation notes

A character of a string is the character with its code; keys are compared by
the codes.
-/

namespace Cytrus.Common

open Support.OrderedMap

abbrev Str : Type := List Char

def keyValueSeparator : Char := ':'
def paramSeparator : Char := ','
def escapeCharacter : Char := '$'
def keyValueSeparatorEscape : Str := ['$', '0']
def paramSeparatorEscape : Str := ['$', '1']
def escapeCharacterEscape : Str := ['$', '2']

/-- What stands for a package without pairs. -/
def emptyPlaceholder : Str := ['[', 'e', 'm', 'p', 't', 'y', ']']

/-! ## Escaping -/

/-- The passes of `Serialize` over a key or a value. -/
def escape (part : Str) : Str :=
  let part := replaceAll part [escapeCharacter] escapeCharacterEscape
  let part := replaceAll part [paramSeparator] paramSeparatorEscape
  replaceAll part [keyValueSeparator] keyValueSeparatorEscape

/-- The passes of the constructor over a key or a value. -/
def unescape (part : Str) : Str :=
  let part := replaceAll part keyValueSeparatorEscape [keyValueSeparator]
  let part := replaceAll part paramSeparatorEscape [paramSeparator]
  replaceAll part escapeCharacterEscape [escapeCharacter]

/-- The escape of each character on its own. -/
def escapeChar (c : Char) : Str :=
  if c = escapeCharacter then escapeCharacterEscape
  else if c = paramSeparator then paramSeparatorEscape
  else if c = keyValueSeparator then keyValueSeparatorEscape
  else [c]

theorem escape_eq (part : Str) : escape part = part.flatMap escapeChar := by
  unfold escape
  simp only [replaceAll_singleton, List.flatMap_assoc]
  congr 1
  funext c
  by_cases hescape : c = escapeCharacter
  · rw [hescape]
    decide
  by_cases hparam : c = paramSeparator
  · rw [hparam]
    decide
  simp [escapeChar, hescape, hparam]

/-- The escape of a character when the key and value separator is taken back. -/
def escapeChar₁ (c : Char) : Str := if c = keyValueSeparator then [c] else escapeChar c

/-- The escape of a character when both separators are taken back. -/
def escapeChar₂ (c : Char) : Str := if c = escapeCharacter then escapeCharacterEscape else [c]

theorem replaces_keyValueSeparator (c : Char) : Replaces '$' '0' [keyValueSeparator]
    (escapeChar c) (escapeChar₁ c) := by
  unfold escapeChar₁ escapeChar
  by_cases hkey : c = keyValueSeparator
  · rw [hkey]
    exact .escape
  · rw [if_neg hkey, if_neg hkey]
    split_ifs with hescape hparam
    · exact .other (by decide) (by decide)
    · exact .other (by decide) (by decide)
    · exact .character hescape

theorem replaces_paramSeparator (c : Char) : Replaces '$' '1' [paramSeparator]
    (escapeChar₁ c) (escapeChar₂ c) := by
  unfold escapeChar₁ escapeChar₂ escapeChar
  by_cases hescape : c = escapeCharacter
  · rw [hescape]
    exact .other (by decide) (by decide)
  · rw [if_neg hescape, if_neg hescape]
    split_ifs with hkey hparam
    · exact .character hescape
    · rw [hparam]
      exact .escape
    · exact .character hescape

theorem replaces_escapeCharacter (c : Char) : Replaces '$' '2' [escapeCharacter]
    (escapeChar₂ c) [c] := by
  unfold escapeChar₂
  split_ifs with hescape
  · rw [hescape]
    exact .escape
  · exact .character hescape

theorem unescape_escape (part : Str) : unescape (escape part) = part := by
  unfold unescape
  rw [escape_eq]
  calc replaceAll (replaceAll (replaceAll (part.flatMap escapeChar) keyValueSeparatorEscape
          [keyValueSeparator]) paramSeparatorEscape [paramSeparator]) escapeCharacterEscape
          [escapeCharacter]
      = replaceAll (replaceAll (part.flatMap escapeChar₁) paramSeparatorEscape
          [paramSeparator]) escapeCharacterEscape [escapeCharacter] := by
        rw [keyValueSeparatorEscape, replaceAll_flatMap replaces_keyValueSeparator _ (by simp)]
    _ = replaceAll (part.flatMap escapeChar₂) escapeCharacterEscape [escapeCharacter] := by
        rw [paramSeparatorEscape, replaceAll_flatMap replaces_paramSeparator _ (by simp)]
    _ = part.flatMap fun c => [c] := by
        rw [escapeCharacterEscape, replaceAll_flatMap replaces_escapeCharacter _ (by simp)]
    _ = part := List.flatMap_singleton' part

theorem separators_notMem_escapeChar (c : Char) :
    keyValueSeparator ∉ escapeChar c ∧ paramSeparator ∉ escapeChar c := by
  unfold escapeChar
  split_ifs with hescape hparam hkey
  · decide
  · decide
  · decide
  · exact ⟨fun h => hkey (List.mem_singleton.mp h).symm,
      fun h => hparam (List.mem_singleton.mp h).symm⟩

theorem keyValueSeparator_notMem_escape (part : Str) : keyValueSeparator ∉ escape part := by
  rw [escape_eq, List.mem_flatMap]
  rintro ⟨c, -, hc⟩
  exact (separators_notMem_escapeChar c).1 hc

theorem paramSeparator_notMem_escape (part : Str) : paramSeparator ∉ escape part := by
  rw [escape_eq, List.mem_flatMap]
  rintro ⟨c, -, hc⟩
  exact (separators_notMem_escapeChar c).2 hc

theorem escape_ne_nil {part : Str} (h : part ≠ []) : escape part ≠ [] := by
  intro hnil
  apply h
  rw [← unescape_escape part, hnil]
  decide

/-! ## Packages -/

/-- The pairs of a package, in the order of their keys. -/
structure ParamPackage where
  data : Entries Str Str
  sorted : Sorted data

namespace ParamPackage

def set (p : ParamPackage) (key value : Str) : ParamPackage where
  data := insertOrAssign p.data key value
  sorted := p.sorted.insertOrAssign key value

def empty : ParamPackage := ⟨[], List.Pairwise.nil⟩

/-- What is written for a pair, without the separator after it. -/
def entry (pair : Str × Str) : Str :=
  escape pair.1 ++ keyValueSeparator :: escape pair.2

def serialize (p : ParamPackage) : Str :=
  if p.data = [] then emptyPlaceholder
  else (p.data.flatMap fun pair => entry pair ++ [paramSeparator]).dropLast

/-- Add a pair that was read; one that does not have two fields is reported and skipped. -/
def setPair (p : ParamPackage) (pair : Str) : ParamPackage :=
  match splitString pair keyValueSeparator with
  | [key, value] => p.set (unescape key) (unescape value)
  | _ => p

def ofString (serialized : Str) : ParamPackage :=
  if serialized = emptyPlaceholder then empty
  else (splitString serialized paramSeparator).foldl setPair empty

variable {p : ParamPackage} {pair : Str × Str} {pairs : Entries Str Str}

theorem set_data {key : Str} (value : Str) (h : ∀ e ∈ p.data, e.1 < key) :
    (p.set key value).data = p.data ++ [(key, value)] :=
  insertOrAssign_last h value

theorem paramSeparator_notMem_entry (pair : Str × Str) : paramSeparator ∉ entry pair := by
  unfold entry
  rw [List.mem_append, List.mem_cons]
  rintro (h | h | h)
  · exact paramSeparator_notMem_escape _ h
  · exact absurd h (by decide)
  · exact paramSeparator_notMem_escape _ h

theorem entry_ne_nil (pair : Str × Str) : entry pair ≠ [] := by
  unfold entry
  simp

theorem splitString_entries (pairs : Entries Str Str) :
    splitString (pairs.flatMap fun pair => entry pair ++ [paramSeparator]).dropLast
      paramSeparator = pairs.map entry := by
  induction pairs with
  | nil => exact splitString_nil _
  | cons pair pairs ih =>
      rw [List.flatMap_cons, List.map_cons, ← ih]
      by_cases hpairs : pairs = []
      · rw [hpairs, List.flatMap_nil, List.append_nil, List.dropLast_concat, List.dropLast_nil,
          splitString_nil]
        exact splitString_line (paramSeparator_notMem_entry pair) (entry_ne_nil pair)
      · have hne : (pairs.flatMap fun pair => entry pair ++ [paramSeparator]) ≠ [] := by
          obtain ⟨next, rest, rfl⟩ := List.exists_cons_of_ne_nil hpairs
          simp
        rw [List.dropLast_append_of_ne_nil hne, List.append_assoc, List.singleton_append]
        exact splitString_cons (paramSeparator_notMem_entry pair) _

/-- A pair is read back unless its value is empty. -/
theorem setPair_entry (p : ParamPackage) (pair : Str × Str) :
    p.setPair (entry pair) = if pair.2 = [] then p else p.set pair.1 pair.2 := by
  have hkey := splitString_cons (keyValueSeparator_notMem_escape pair.1) (escape pair.2)
  unfold setPair entry
  rw [hkey]
  split_ifs with hvalue
  · have hempty : escape pair.2 = [] := by
      rw [hvalue]
      decide
    rw [hempty, splitString_nil]
  · rw [splitString_line (keyValueSeparator_notMem_escape pair.2) (escape_ne_nil hvalue)]
    dsimp only
    rw [unescape_escape, unescape_escape]

theorem foldl_setPair (hsorted : Sorted pairs) (hp : ∀ e ∈ p.data, ∀ pair ∈ pairs, e.1 < pair.1) :
    ((pairs.map entry).foldl setPair p).data = p.data ++ pairs.filter (·.2 ≠ []) := by
  induction pairs generalizing p with
  | nil => exact (List.append_nil _).symm
  | cons pair pairs ih =>
      obtain ⟨hpair, hpairs⟩ := List.pairwise_cons.mp hsorted
      rw [List.map_cons, List.foldl_cons, setPair_entry]
      by_cases hvalue : pair.2 = []
      · rw [if_pos hvalue, ih hpairs fun e he next hnext => hp e he next (by simp [hnext])]
        simp [hvalue]
      · have hdata := set_data pair.2 fun e he => hp e he pair List.mem_cons_self
        rw [if_neg hvalue, ih hpairs, hdata]
        · simp [hvalue]
        · intro e he next hnext
          rw [hdata, List.mem_append, List.mem_singleton] at he
          rcases he with he | rfl
          · exact hp e he next (by simp [hnext])
          · exact hpair next hnext

theorem serialize_ne_placeholder (h : p.data ≠ []) :
    (p.data.flatMap fun pair => entry pair ++ [paramSeparator]).dropLast ≠ emptyPlaceholder := by
  intro heq
  have hlines := splitString_entries p.data
  obtain ⟨pair, pairs, hdata⟩ := List.exists_cons_of_ne_nil h
  rw [heq, splitString_line (by decide) (by decide), hdata, List.map_cons, List.cons.injEq] at hlines
  have hmem : keyValueSeparator ∈ emptyPlaceholder := by
    rw [hlines.1]
    unfold entry
    simp
  exact absurd hmem (by decide)

theorem ofString_serialize_data (p : ParamPackage) :
    (ofString p.serialize).data = p.data.filter (·.2 ≠ []) := by
  unfold ofString serialize
  by_cases h : p.data = []
  · rw [if_pos h, if_pos rfl, h]
    rfl
  · rw [if_neg h, if_neg (serialize_ne_placeholder h), splitString_entries]
    exact foldl_setPair p.sorted fun e he => absurd he List.not_mem_nil

/-- The packages that are read back as they were are those without an empty value. -/
theorem ofString_serialize_iff (p : ParamPackage) :
    ofString p.serialize = p ↔ ∀ pair ∈ p.data, pair.2 ≠ [] := by
  have hdata := ofString_serialize_data p
  have hiff : ofString p.serialize = p ↔ (ofString p.serialize).data = p.data := by
    cases ofString p.serialize
    cases p
    simp
  rw [hiff, hdata, List.filter_eq_self]
  simp

/-- One key with an empty value. -/
def emptyValue : ParamPackage := ⟨[(['k'], [])], List.pairwise_singleton _ _⟩

theorem ofString_serialize_emptyValue : ofString emptyValue.serialize ≠ emptyValue := by
  intro h
  have hdata := ofString_serialize_data emptyValue
  rw [h] at hdata
  exact absurd hdata (by decide)

end ParamPackage

end Cytrus.Common
