import Mathlib

/-!
# Traces of a loop

A loop goes through a list of items, with a state and an observation for each
item, and stops without a trace where a step fails.

## Main results

* `trace_eq_of_simulation`: two loops whose states are related observe the same
-/

namespace Cytrus.Support

variable {ι ε σ τ : Type*}

/-- The observations of a loop. -/
def trace (step : ι → σ → Option (ε × σ)) : List ι → σ → Option (List ε)
  | [], _ => some []
  | i :: rest, s => (step i s).bind fun first =>
      (trace step rest first.2).map fun later => first.1 :: later

/-- Steps from related states observe the same and lead to related states. -/
def SameStep (R : σ → τ → Prop) : Option (ε × σ) → Option (ε × τ) → Prop :=
  Option.Rel fun p q => p.1 = q.1 ∧ R p.2 q.2

theorem trace_eq_of_simulation {step : ι → σ → Option (ε × σ)} {step' : ι → τ → Option (ε × τ)}
    {R : σ → τ → Prop} (hstep : ∀ i s t, R s t → SameStep R (step i s) (step' i t))
    (items : List ι) {s : σ} {t : τ} (h : R s t) : trace step items s = trace step' items t := by
  induction items generalizing s t with
  | nil => rfl
  | cons i rest ih =>
      show (step i s).bind _ = (step' i t).bind _
      have hsame := hstep i s t h
      generalize step i s = first at hsame
      generalize step' i t = first' at hsame
      cases hsame with
      | none => rfl
      | some hpair =>
          obtain ⟨hevent, hnext⟩ := hpair
          rw [Option.bind_some, Option.bind_some, hevent, ih hnext]

end Cytrus.Support
