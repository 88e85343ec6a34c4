import Mathlib.Data.List.TakeWhile
import Mathlib.Tactic

/-!
# Splitting strings and replacing in them

`SplitString` reads lines with a separator of its own: a separator ends a line,
and what comes after the last one is a line only if it is not empty.
`ReplaceAll` goes over the string once and does not look again at what it has
put there.

## Main results

* `splitString_line`, `splitString_cons`: the lines of a string, one by one
* `replaceAll_singleton`: replacing a character
* `replaceAll_flatMap`: replacing an escape of two characters in a string of
  escapes and characters
-/

namespace Cytrus.Common

variable {α : Type} [DecidableEq α] {delim : α} {line rest : List α}

/-- `std::getline`: what comes before the separator and what comes after it; nothing at the end. -/
def getline (delim : α) : List α → Option (List α × List α)
  | [] => none
  | str => some (str.takeWhile (· ≠ delim), (str.dropWhile (· ≠ delim)).tail)

theorem getline_lt {str : List α} (h : getline delim str = some (line, rest)) :
    rest.length < str.length := by
  cases str with
  | nil => cases h
  | cons c str =>
      cases h
      have hle := (List.dropWhile_sublist (· ≠ delim) (l := c :: str)).length_le
      rw [List.length_tail, List.length_cons] at *
      omega

def splitString (str : List α) (delim : α) : List (List α) :=
  match _h : getline delim str with
  | none => []
  | some (line, rest) => line :: splitString rest delim
termination_by str.length
decreasing_by exact getline_lt _h

theorem getline_of_ne_nil {str : List α} (h : str ≠ []) : getline delim str =
    some (str.takeWhile (· ≠ delim), (str.dropWhile (· ≠ delim)).tail) := by
  cases str with
  | nil => exact absurd rfl h
  | cons c str => rfl

theorem ne_delim (h : delim ∉ line) : ∀ c ∈ line, decide (c ≠ delim) = true :=
  fun _ hc => decide_eq_true fun heq => h (heq ▸ hc)

theorem getline_cons (h : delim ∉ line) (rest : List α) :
    getline delim (line ++ delim :: rest) = some (line, rest) := by
  rw [getline_of_ne_nil (by simp), List.takeWhile_append_of_pos (ne_delim h),
    List.dropWhile_append_of_pos (ne_delim h)]
  simp

theorem getline_line (h : delim ∉ line) (hne : line ≠ []) :
    getline delim line = some (line, []) := by
  have htake : line.takeWhile (· ≠ delim) = line := List.takeWhile_eq_self_iff.mpr (ne_delim h)
  have hdrop : line.dropWhile (· ≠ delim) = [] := List.dropWhile_eq_nil_iff.mpr (ne_delim h)
  rw [getline_of_ne_nil hne, htake, hdrop]
  simp

theorem splitString_nil (delim : α) : splitString [] delim = [] := by
  unfold splitString
  rfl

theorem splitString_of_getline {str : List α} (h : getline delim str = some (line, rest)) :
    splitString str delim = line :: splitString rest delim := by
  rw [splitString]
  split
  next hnone =>
    rw [hnone] at h
    cases h
  next hsome =>
    cases hsome.symm.trans h
    rfl

theorem splitString_cons (h : delim ∉ line) (rest : List α) :
    splitString (line ++ delim :: rest) delim = line :: splitString rest delim :=
  splitString_of_getline (getline_cons h rest)

/-- The last line, if it is not empty. -/
theorem splitString_line (h : delim ∉ line) (hne : line ≠ []) :
    splitString line delim = [line] := by
  rw [splitString_of_getline (getline_line h hne), splitString_nil]

/-! ## Replacing -/

/-- `ReplaceAll` from a place on, where the next characters may be replaced already. -/
def replaceFrom (src dest : List α) : Nat → List α → List α
  | _, [] => []
  | replaced + 1, _ :: rest => replaceFrom src dest replaced rest
  | 0, c :: rest =>
      if src.isPrefixOf (c :: rest) then dest ++ replaceFrom src dest (src.length - 1) rest
      else c :: replaceFrom src dest 0 rest

def replaceAll (result src dest : List α) : List α :=
  if src = dest then result else replaceFrom src dest 0 result

theorem replaceFrom_singleton (a : α) (dest s : List α) :
    replaceFrom [a] dest 0 s = s.flatMap fun c => if c = a then dest else [c] := by
  induction s with
  | nil => rfl
  | cons c s ih =>
      rw [replaceFrom, List.flatMap_cons]
      by_cases h : c = a
      · simp [h, ih]
      · simp [h, Ne.symm h, ih]

/-- A character is replaced wherever it stands. -/
theorem replaceAll_singleton (a : α) (dest s : List α) :
    replaceAll s [a] dest = s.flatMap fun c => if c = a then dest else [c] := by
  unfold replaceAll
  split
  next h =>
    subst h
    have hsame : (fun c => if c = a then [a] else [c]) = fun c => [c] := by
      funext c
      split
      next hc => rw [hc]
      next => rfl
    rw [hsame, List.flatMap_singleton']
  next => exact replaceFrom_singleton a dest s

/-- What replacing an escape of two characters does to a character or an escape. -/
inductive Replaces (e d : α) (dest : List α) : List α → List α → Prop
  | character {c : α} (h : c ≠ e) : Replaces e d dest [c] [c]
  | other {c : α} (he : c ≠ e) (hd : c ≠ d) : Replaces e d dest [e, c] [e, c]
  | escape : Replaces e d dest [e, d] dest

theorem replaceFrom_append {e d : α} {dest token token' : List α}
    (h : Replaces e d dest token token') (rest : List α) :
    replaceFrom [e, d] dest 0 (token ++ rest) = token' ++ replaceFrom [e, d] dest 0 rest := by
  cases h with
  | character h => simp [replaceFrom, Ne.symm h]
  | other he hd => simp [replaceFrom, Ne.symm he, Ne.symm hd]
  | escape => simp [replaceFrom]

/-- In a string of characters and escapes, the escapes are replaced. -/
theorem replaceAll_flatMap {β : Type} {e d : α} {dest : List α} {f g : β → List α}
    (h : ∀ b, Replaces e d dest (f b) (g b)) (s : List β) (hdest : [e, d] ≠ dest) :
    replaceAll (s.flatMap f) [e, d] dest = s.flatMap g := by
  rw [replaceAll, if_neg hdest]
  induction s with
  | nil => rfl
  | cons b s ih => rw [List.flatMap_cons, List.flatMap_cons, replaceFrom_append (h b), ih]

end Cytrus.Common
