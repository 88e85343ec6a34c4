import Mathlib.Tactic

/-!
# Lexical resolution of paths

A path is a list of components. Resolving it moves a location: a name enters a
directory, `..` leaves the innermost one. A location counts how often it left
the directory it started from; an absolute location never leaves the root.

## Main results

* `enterNames`: resolving names and dots that never leave their start only adds
  names
* `resolve_below`: every prefix of such components stays at or below the start
-/

namespace Cytrus.Support

/-- A component of a path. -/
inductive Component (α : Type*) where
  | current
  | parent
  | name (a : α)
  deriving DecidableEq, Repr

/-- Where a path leads. The names on the way are kept innermost first. -/
structure Location (α : Type*) where
  absolute : Bool
  above : Nat := 0
  trail : List α := []
  deriving DecidableEq, Repr

variable {α : Type*}

namespace Location

/-- Follow one component. -/
def enter (l : Location α) : Component α → Location α
  | .current => l
  | .name a => { l with trail := a :: l.trail }
  | .parent =>
      match l.trail with
      | _ :: rest => { l with trail := rest }
      | [] => if l.absolute then l else { l with above := l.above + 1 }

def resolve (l : Location α) (path : List (Component α)) : Location α := path.foldl enter l

/-- `AtOrBelow p q`: the location `q` is `p` or lies below it. -/
def AtOrBelow (p q : Location α) : Prop :=
  q.absolute = p.absolute ∧ q.above = p.above ∧ p.trail <:+ q.trail

/-- The location that lies the given names below, innermost first. -/
def descend (l : Location α) (names : List α) : Location α := { l with trail := names ++ l.trail }

end Location

/-- How many directories a component goes down. -/
def Component.depth : Component α → Int
  | .current => 0
  | .parent => -1
  | .name _ => 1

/-- How many directories a path goes down in all. -/
def depth (path : List (Component α)) : Int := (path.map Component.depth).sum

/-- No prefix of the path goes above its start. -/
def Contained (path : List (Component α)) : Prop := ∀ front, front <+: path → 0 ≤ depth front

@[simp] theorem depth_nil : depth ([] : List (Component α)) = 0 := rfl

@[simp] theorem depth_cons (c : Component α) (path : List (Component α)) :
    depth (c :: path) = c.depth + depth path := by simp [depth]

namespace Location

@[simp] theorem resolve_append (l : Location α) (p q : List (Component α)) :
    l.resolve (p ++ q) = (l.resolve p).resolve q := List.foldl_append

@[simp] theorem descend_nil (l : Location α) : l.descend [] = l := rfl

theorem atOrBelow_descend (l : Location α) (names : List α) : AtOrBelow l (l.descend names) :=
  ⟨rfl, rfl, List.suffix_append names l.trail⟩

theorem descend_eq_self {l : Location α} {names : List α} : l.descend names = l ↔ names = [] := by
  constructor
  · intro h
    have htrail : names ++ l.trail = l.trail := congrArg trail h
    exact List.append_left_eq_self.mp htrail
  · rintro rfl
    rfl

/-- Components that stay below where they start lead below it, as far as they go down.
`names` is the way from the start to the current location. -/
theorem resolve_descend (l : Location α) (path : List (Component α)) (names : List α)
    (h : ∀ front, front <+: path → 0 ≤ (names.length : Int) + depth front) :
    ∃ names', (l.descend names).resolve path = l.descend names' ∧
      (names'.length : Int) = names.length + depth path := by
  induction path generalizing names with
  | nil => exact ⟨names, rfl, by simp⟩
  | cons c rest ih =>
      have hfirst := h [c] ⟨rest, rfl⟩
      have htail : ∀ front, front <+: rest → 0 ≤ (names.length : Int) + (c.depth + depth front) := by
        intro front hfront
        simpa using h (c :: front) (List.cons_prefix_cons.mpr ⟨rfl, hfront⟩)
      cases c with
      | current =>
          obtain ⟨names', hresolve, hlength⟩ := ih names (by simpa [Component.depth] using htail)
          exact ⟨names', hresolve, by simpa [Component.depth] using hlength⟩
      | name a =>
          obtain ⟨names', hresolve, hlength⟩ := ih (a :: names) fun front hfront => by
            have := htail front hfront
            simp only [Component.depth] at this
            simp only [List.length_cons]
            omega
          refine ⟨names', hresolve, ?_⟩
          simp only [List.length_cons, depth_cons, Component.depth] at hlength ⊢
          omega
      | parent =>
          cases names with
          | nil => simp [Component.depth] at hfirst
          | cons a names =>
              obtain ⟨names', hresolve, hlength⟩ := ih names fun front hfront => by
                have := htail front hfront
                simp only [Component.depth, List.length_cons] at this
                omega
              refine ⟨names', hresolve, ?_⟩
              simp only [List.length_cons, depth_cons, Component.depth] at hlength ⊢
              omega

/-- A contained path leads below its start, and back to it exactly when it goes down as often
as up. -/
theorem resolve_below (l : Location α) {path : List (Component α)} (h : Contained path) :
    AtOrBelow l (l.resolve path) ∧ (l.resolve path = l ↔ depth path = 0) := by
  obtain ⟨names, hresolve, hlength⟩ := l.resolve_descend path [] (by simpa [Contained] using h)
  rw [descend_nil] at hresolve
  rw [hresolve, descend_eq_self, ← List.length_eq_zero_iff]
  exact ⟨l.atOrBelow_descend names, by simp at hlength; omega⟩

end Location

theorem Contained.of_prefix {path front : List (Component α)} (h : Contained path)
    (hfront : front <+: path) : Contained front :=
  fun _ hless => h _ (hless.trans hfront)

end Cytrus.Support
