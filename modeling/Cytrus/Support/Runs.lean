import Mathlib.Tactic

/-!
# Runs of a machine

A machine takes an action in a state and has no next state when it is stopped. A
run records each action with the state before it, so that conditions on the
single steps can be put on a run.

## Main results

* `Run.invariant_of`: what steps keep that meet a condition
* `Run.conditions_iff`: a condition on the steps of a run, seen from what they do
* `run_of_after`: the run of a list of actions
-/

namespace Cytrus.Support

variable {σ α : Type*}

/-- The runs from `start`, with the state before each action. -/
inductive Run (step : σ → α → Option σ) (start : σ) : List (σ × α) → σ → Prop
  | nil : Run step start [] start
  | snoc {steps : List (σ × α)} {s t : σ} {a : α} (h : Run step start steps s)
      (hstep : step s a = some t) : Run step start (steps ++ [(s, a)]) t

variable {step : σ → α → Option σ} {start s t : σ} {steps : List (σ × α)}

/-- What holds at the start and is kept by the steps that meet a condition. -/
theorem Run.invariant_of {I : σ → Prop} {C : σ → α → Prop} (h : Run step start steps s)
    (hinit : I start) (hkeeps : ∀ s a t, I s → C s a → step s a = some t → I t)
    (hsteps : ∀ x ∈ steps, C x.1 x.2) : I s ∧ ∀ x ∈ steps, I x.1 := by
  induction h with
  | nil => exact ⟨hinit, fun x hx => absurd hx List.not_mem_nil⟩
  | @snoc steps s t a _ hstep ih =>
      obtain ⟨hs, hbefore⟩ := ih fun x hx => hsteps x (List.mem_append_left _ hx)
      have hlast : C s a := hsteps (s, a) (List.mem_append_right _ (List.mem_singleton_self _))
      refine ⟨hkeeps s a t hs hlast hstep, fun x hx => ?_⟩
      rcases List.mem_append.mp hx with hx | hx
      · exact hbefore x hx
      · rw [List.mem_singleton.mp hx]
        exact hs

theorem Run.invariant {I : σ → Prop} (h : Run step start steps s) (hinit : I start)
    (hkeeps : ∀ s a t, I s → step s a = some t → I t) : I s ∧ ∀ x ∈ steps, I x.1 :=
  h.invariant_of (C := fun _ _ => True) hinit (fun s a t hs _ => hkeeps s a t hs)
    fun _ _ => trivial

/-- Where the invariant holds, a condition on the steps is the same as one on what they do. -/
theorem Run.conditions_iff {I : σ → Prop} {C D : σ → α → Prop} (h : Run step start steps s)
    (hinit : I start) (hkeeps : ∀ s a t, I s → step s a = some t → I t)
    (hiff : ∀ s a, I s → (C s a ↔ D s a)) :
    (∀ x ∈ steps, C x.1 x.2) ↔ ∀ x ∈ steps, D x.1 x.2 :=
  forall₂_congr fun x hx => hiff x.1 x.2 ((h.invariant hinit hkeeps).2 x hx)

/-- The state after some actions. -/
def after (step : σ → α → Option σ) (s : σ) (actions : List α) : Option σ := actions.foldlM step s

theorem Run.exists_after {actions : List α} (h : Run step start steps s)
    (hafter : after step s actions = some t) :
    ∃ more, more.map Prod.snd = actions ∧ Run step start (steps ++ more) t := by
  induction actions generalizing s steps with
  | nil =>
      cases Option.some.inj hafter
      exact ⟨[], rfl, by rwa [List.append_nil]⟩
  | cons a actions ih =>
      obtain ⟨u, hstep, hrest⟩ := Option.bind_eq_some_iff.mp hafter
      obtain ⟨more, hactions, hrun⟩ := ih (h.snoc hstep) hrest
      refine ⟨(s, a) :: more, congrArg (a :: ·) hactions, ?_⟩
      rwa [List.append_assoc] at hrun

/-- The run of a list of actions. -/
theorem run_of_after {actions : List α} (hafter : after step start actions = some t) :
    ∃ steps, steps.map Prod.snd = actions ∧ Run step start steps t :=
  Run.nil.exists_after hafter

end Cytrus.Support
