import Mathlib.Tactic

/-!
# Imperative calls with result codes and aborts

A call on a state either returns a value, returns an error code, or aborts.
An error code does not roll the state back: the state left behind is part of
the outcome, so that a half-done call is visible. An abort (a failed
assertion, an invalid dereference) leaves no state at all.

## Implementation notes

`Post` is the weakest-precondition reading of a call at one start state, with
one clause for each way to end. Every rule below is an equivalence, so a
specification is unfolded by `simp only` and assembled again by `Post.mono`.
-/

universe u

namespace Cytrus.Support

variable {φ ε σ τ α β : Type u}

/-- The three ways a call ends; only the first two leave a state behind. -/
inductive Outcome (φ ε σ α : Type u) where
  | value (a : α) (s : σ)
  | error (e : ε) (s : σ)
  | fault (f : φ)

namespace Outcome

/-- The state a call returned with, whichever code it returned. -/
def state? : Outcome φ ε σ α → Option σ
  | value _ s => some s
  | error _ s => some s
  | fault _ => none

/-- The value a call returned. -/
def value? : Outcome φ ε σ α → Option α
  | value a _ => some a
  | _ => none

/-- The error code a call returned. -/
def code? : Outcome φ ε σ α → Option ε
  | error e _ => some e
  | _ => none

/-- The reason of an abort. -/
def fault? : Outcome φ ε σ α → Option φ
  | fault f => some f
  | _ => none

end Outcome

/-- A call on `σ` that may return a code in `ε` or abort for a reason in `φ`. -/
def Exec (φ ε σ α : Type u) : Type u := σ → Outcome φ ε σ α

namespace Exec

/-- Sequencing stops at the first error or abort. -/
def bind (x : Exec φ ε σ α) (f : α → Exec φ ε σ β) : Exec φ ε σ β := fun s =>
  match x s with
  | .value a t => f a t
  | .error e t => .error e t
  | .fault g => .fault g

instance : Monad (Exec φ ε σ) where
  pure a := fun s => .value a s
  bind := bind

/-- Return an error code, keeping whatever was written so far. -/
def throw (e : ε) : Exec φ ε σ α := fun s => .error e s

def abort (f : φ) : Exec φ ε σ α := fun _ => .fault f

/-- An assertion that stays active in release builds. -/
def assert (f : φ) (c : Prop) [Decidable c] : Exec φ ε σ PUnit :=
  if c then pure ⟨⟩ else abort f

/-- Return the code unless the condition holds. -/
def require (e : ε) (c : Prop) [Decidable c] : Exec φ ε σ PUnit :=
  if c then pure ⟨⟩ else throw e

/-- Run a call if the condition holds. -/
def when (c : Prop) [Decidable c] (x : Exec φ ε σ PUnit) : Exec φ ε σ PUnit :=
  if c then x else pure ⟨⟩

def get : Exec φ ε σ σ := fun s => .value s s

def modify (f : σ → σ) : Exec φ ε σ PUnit := fun s => .value ⟨⟩ (f s)

/-- Read through an optional lookup, aborting where it has no answer. -/
def read (f : φ) (look : σ → Option α) : Exec φ ε σ α := fun s =>
  match look s with
  | some a => .value a s
  | none => .fault f

/-- Read through a lookup that names the reason of its abort. -/
def lookup (look : σ → Except φ α) : Exec φ ε σ α := fun s =>
  match look s with
  | .ok a => .value a s
  | .error f => .fault f

/-- Assert that a call returns no error code. -/
def unwrap (f : φ) (x : Exec φ ε σ α) : Exec φ ε σ α := fun s =>
  match x s with
  | .error _ _ => .fault f
  | o => o

/-- Run a call on one component of a larger state. -/
def zoom (look : τ → σ) (put : τ → σ → τ) (x : Exec φ ε σ α) : Exec φ ε τ α := fun s =>
  match x (look s) with
  | .value a t => .value a (put s t)
  | .error e t => .error e (put s t)
  | .fault f => .fault f

/-- Run a call for each item of a list, in order. -/
def forEach (xs : List β) (body : β → Exec φ ε σ PUnit) : Exec φ ε σ PUnit :=
  match xs with
  | [] => pure ⟨⟩
  | b :: rest => body b >>= fun _ => forEach rest body

/-- What holds after `x` from `s`: `Q` of a value, `E` of a code, `F` of an abort. -/
def Post (x : Exec φ ε σ α) (s : σ) (Q : α → σ → Prop) (E : ε → σ → Prop)
    (F : φ → Prop) : Prop :=
  match x s with
  | .value a t => Q a t
  | .error e t => E e t
  | .fault f => F f

variable {x : Exec φ ε σ α} {s t : σ} {Q Q' : α → σ → Prop} {E E' : ε → σ → Prop}
  {F F' : φ → Prop}

/-- Consequence rule. -/
theorem Post.mono (h : x.Post s Q E F) (hQ : ∀ a t, Q a t → Q' a t)
    (hE : ∀ e t, E e t → E' e t) (hF : ∀ f, F f → F' f) : x.Post s Q' E' F' := by
  unfold Post at h ⊢
  cases hx : x s with
  | value a t => exact hQ a t (by simpa [hx] using h)
  | error e t => exact hE e t (by simpa [hx] using h)
  | fault f => exact hF f (by simpa [hx] using h)

theorem Post.and (h : x.Post s Q E F) (h' : x.Post s Q' E' F') :
    x.Post s (fun a t => Q a t ∧ Q' a t) (fun e t => E e t ∧ E' e t)
      (fun f => F f ∧ F' f) := by
  unfold Post at h h' ⊢
  cases hx : x s <;> simp_all

theorem Post.value (h : x.Post s Q E F) {a : α} (hx : x s = .value a t) : Q a t := by
  simpa [Post, hx] using h

theorem Post.error (h : x.Post s Q E F) {e : ε} (hx : x s = .error e t) : E e t := by
  simpa [Post, hx] using h

theorem Post.fault (h : x.Post s Q E F) {f : φ} (hx : x s = .fault f) : F f := by
  simpa [Post, hx] using h

/-- A specification with a value clause only says that the call returns a value. -/
theorem Post.exists_value (h : x.Post s Q (fun _ _ => False) fun _ => False) :
    ∃ a t, x s = .value a t ∧ Q a t := by
  cases hx : x s with
  | value a t => exact ⟨a, t, rfl, h.value hx⟩
  | error e t => exact (h.error hx).elim
  | fault f => exact (h.fault hx).elim

theorem Post.eq_value {b : α} (h : x.Post s (fun a u => a = b ∧ u = t) (fun _ _ => False)
    fun _ => False) : x s = .value b t := by
  cases hx : x s with
  | value a u =>
      obtain ⟨rfl, rfl⟩ := h.value hx
      rfl
  | error e u => exact (h.error hx).elim
  | fault f => exact (h.fault hx).elim

theorem Post.eq_error {e : ε} (h : x.Post s (fun _ _ => False) (fun e' u => e' = e ∧ u = t)
    fun _ => False) : x s = .error e t := by
  cases hx : x s with
  | value a u => exact (h.value hx).elim
  | error e' u =>
      obtain ⟨rfl, rfl⟩ := h.error hx
      rfl
  | fault f => exact (h.fault hx).elim

theorem post_iff : x.Post s Q E F ↔
    (∀ a t, x s = .value a t → Q a t) ∧ (∀ e t, x s = .error e t → E e t) ∧
      (∀ f, x s = .fault f → F f) := by
  constructor
  · intro h
    exact ⟨fun a t hx => h.value hx, fun e t hx => h.error hx, fun f hx => h.fault hx⟩
  · rintro ⟨hQ, hE, hF⟩
    unfold Post
    cases hx : x s with
    | value a t => exact hQ a t hx
    | error e t => exact hE e t hx
    | fault f => exact hF f hx

theorem post_of_value {a : α} (hx : x s = .value a t) (h : Q a t) : x.Post s Q E F := by
  simpa [Post, hx] using h

theorem post_of_error {e : ε} (hx : x s = .error e t) (h : E e t) : x.Post s Q E F := by
  simpa [Post, hx] using h

/-- A call that ends as another one does satisfies what that one satisfies. -/
theorem Post.of_eq {y : Exec φ ε σ α} (h : y.Post t Q E F) (hxy : x s = y t) : x.Post s Q E F := by
  unfold Post at h ⊢
  rwa [hxy]

theorem bind_of_value {f : α → Exec φ ε σ β} {a : α} (hx : x s = .value a t) :
    (x >>= f) s = f a t := by
  change bind x f s = _
  rw [bind, hx]

theorem bind_of_fault {f : α → Exec φ ε σ β} {g : φ} (hx : x s = .fault g) :
    (x >>= f) s = .fault g := by
  change bind x f s = _
  rw [bind, hx]

/-! ### Calls that return a value -/

theorem bind_eq_value {f : α → Exec φ ε σ β} {b : β} {u : σ} :
    (x >>= f) s = .value b u ↔ ∃ a t, x s = .value a t ∧ f a t = .value b u := by
  change bind x f s = _ ↔ _
  unfold bind
  cases x s <;> simp

theorem pure_eq_value {a b : α} : (pure a : Exec φ ε σ α) s = .value b t ↔ a = b ∧ s = t := by
  change Outcome.value a s = .value b t ↔ _
  simp

theorem get_eq_value {u : σ} : (get : Exec φ ε σ σ) s = .value u t ↔ s = u ∧ s = t := by
  simp [get]

theorem modify_eq_value {f : σ → σ} {a : PUnit} :
    (modify f : Exec φ ε σ PUnit) s = .value a t ↔ f s = t := by
  simp [modify]

theorem read_eq_value {g : φ} {look : σ → Option α} {a : α} :
    (read g look : Exec φ ε σ α) s = .value a t ↔ look s = some a ∧ s = t := by
  unfold read
  cases look s <;> simp

theorem require_eq_value {e : ε} {c : Prop} [Decidable c] {a : PUnit} :
    (require e c : Exec φ ε σ PUnit) s = .value a t ↔ c ∧ s = t := by
  by_cases hc : c <;> simp [require, hc, pure_eq_value, throw]

theorem assert_eq_value {g : φ} {c : Prop} [Decidable c] {a : PUnit} :
    (assert g c : Exec φ ε σ PUnit) s = .value a t ↔ c ∧ s = t := by
  by_cases hc : c <;> simp [assert, hc, pure_eq_value, abort]

theorem when_eq_value {c : Prop} [Decidable c] {x : Exec φ ε σ PUnit} {a : PUnit} :
    (Exec.when c x) s = .value a t ↔ (c ∧ x s = .value a t) ∨ (¬ c ∧ s = t) := by
  by_cases hc : c <;> simp [Exec.when, hc, pure_eq_value]

theorem get_bind (f : σ → Exec φ ε σ β) : (get >>= f) s = f s s := rfl

theorem modify_bind (g : σ → σ) (f : PUnit → Exec φ ε σ β) : (modify g >>= f) s = f ⟨⟩ (g s) := rfl

theorem assert_bind {g : φ} {c : Prop} [Decidable c] (h : c) (f : PUnit → Exec φ ε σ β) :
    (assert g c >>= f) s = f ⟨⟩ s := by
  rw [assert, if_pos h]
  rfl

theorem read_bind_some {g : φ} {look : σ → Option α} {f : α → Exec φ ε σ β} {a : α}
    (h : look s = some a) : (read g look >>= f) s = f a s :=
  bind_of_value (by rw [read, h])

@[simp] theorem post_pure (a : α) :
    (pure a : Exec φ ε σ α).Post s Q E F ↔ Q a s := Iff.rfl

@[simp] theorem post_throw (e : ε) :
    (throw e : Exec φ ε σ α).Post s Q E F ↔ E e s := Iff.rfl

@[simp] theorem post_abort (f : φ) :
    (abort f : Exec φ ε σ α).Post s Q E F ↔ F f := Iff.rfl

@[simp] theorem post_get {Q : σ → σ → Prop} :
    (get : Exec φ ε σ σ).Post s Q E F ↔ Q s s := Iff.rfl

@[simp] theorem post_modify {Q : PUnit → σ → Prop} (f : σ → σ) :
    (modify f : Exec φ ε σ PUnit).Post s Q E F ↔ Q ⟨⟩ (f s) := Iff.rfl

/-- Sequencing rule. -/
@[simp] theorem post_bind {Q : β → σ → Prop} (f : α → Exec φ ε σ β) :
    (x >>= f).Post s Q E F ↔ x.Post s (fun a t => (f a).Post t Q E F) E F := by
  change (bind x f).Post s Q E F ↔ _
  unfold Post bind
  cases x s <;> rfl

@[simp] theorem post_assert {Q : PUnit → σ → Prop} (f : φ) (c : Prop) [Decidable c] :
    (assert f c : Exec φ ε σ PUnit).Post s Q E F ↔ (c → Q ⟨⟩ s) ∧ (¬ c → F f) := by
  by_cases hc : c <;> simp [assert, hc]

@[simp] theorem post_require {Q : PUnit → σ → Prop} (e : ε) (c : Prop) [Decidable c] :
    (require e c : Exec φ ε σ PUnit).Post s Q E F ↔ (c → Q ⟨⟩ s) ∧ (¬ c → E e s) := by
  by_cases hc : c <;> simp [require, hc]

@[simp] theorem post_read (f : φ) (look : σ → Option α) :
    (read f look : Exec φ ε σ α).Post s Q E F ↔
      (∀ a, look s = some a → Q a s) ∧ (look s = none → F f) := by
  unfold Post read
  cases look s <;> simp

@[simp] theorem post_lookup (look : σ → Except φ α) :
    (lookup look : Exec φ ε σ α).Post s Q E F ↔
      (∀ a, look s = .ok a → Q a s) ∧ (∀ f, look s = .error f → F f) := by
  unfold Post lookup
  cases look s <;> simp

@[simp] theorem post_ite (c : Prop) [Decidable c] (y z : Exec φ ε σ α) :
    (if c then y else z).Post s Q E F ↔
      (c → y.Post s Q E F) ∧ (¬ c → z.Post s Q E F) := by
  by_cases hc : c <;> simp [hc]

@[simp] theorem post_when {Q : PUnit → σ → Prop} (c : Prop) [Decidable c]
    (x : Exec φ ε σ PUnit) :
    (Exec.when c x).Post s Q E F ↔ (c → x.Post s Q E F) ∧ (¬ c → Q ⟨⟩ s) := by
  by_cases hc : c <;> simp [Exec.when, hc]

@[simp] theorem post_unwrap (f : φ) :
    (unwrap f x).Post s Q E F ↔ x.Post s Q (fun _ _ => F f) F := by
  unfold Post unwrap
  cases x s <;> rfl

@[simp] theorem post_zoom {x : Exec φ ε σ α} {s : τ} {Q : α → τ → Prop} {E : ε → τ → Prop}
    (look : τ → σ) (put : τ → σ → τ) :
    (zoom look put x).Post s Q E F ↔
      x.Post (look s) (fun a t => Q a (put s t)) (fun e t => E e (put s t)) F := by
  unfold Post zoom
  cases x (look s) <;> rfl

/-- Loop rule over a list: an invariant indexed by the items still to come. -/
theorem post_forEach {body : β → Exec φ ε σ PUnit} (I : List β → σ → Prop)
    (step : ∀ b rest s, I (b :: rest) s → (body b).Post s (fun _ t => I rest t) E F) :
    ∀ (xs : List β) (s : σ), I xs s →
      (forEach xs body).Post s (fun _ t => I [] t) E F := by
  intro xs
  induction xs with
  | nil => intro s hs; exact hs
  | cons b rest ih =>
      intro s hs
      rw [forEach, post_bind]
      exact (step b rest s hs).mono (fun _ t ht => ih t ht) (fun _ _ h => h) (fun _ h => h)

/-! ## Steps of a relation -/

open Relation (ReflTransGen)

variable {R R' : σ → σ → Prop}

/-- A call has no error code, and takes steps of `R`. -/
def Leads (R : σ → σ → Prop) (x : Exec φ ε σ α) (s : σ) : Prop :=
  x.Post s (fun _ t => ReflTransGen R s t) (fun _ _ => False) fun _ => True

theorem leads_pure (a : α) : (pure a : Exec φ ε σ α).Leads R s := ReflTransGen.refl

theorem leads_abort (f : φ) : (abort f : Exec φ ε σ α).Leads R s := trivial

theorem leads_modify {f : σ → σ} (h : ReflTransGen R s (f s)) :
    (modify f : Exec φ ε σ PUnit).Leads R s := h

theorem leads_assert (f : φ) (c : Prop) [Decidable c] :
    (assert f c : Exec φ ε σ PUnit).Leads R s := by
  unfold Leads
  rw [post_assert]
  exact ⟨fun _ => ReflTransGen.refl, fun _ => trivial⟩

theorem Leads.post {Q : α → σ → Prop} (h : x.Post s Q (fun _ _ => False) fun _ => True)
    {f : α → Exec φ ε σ β}
    (hf : ∀ a t, Q a t → ReflTransGen R s t ∧ (f a).Leads R t) : (x >>= f).Leads R s := by
  unfold Leads
  rw [post_bind]
  refine h.mono (fun a t ha => ?_) (fun _ _ ht => ht) (fun _ ht => ht)
  obtain ⟨hrun, hrest⟩ := hf a t ha
  exact hrest.mono (fun _ _ hu => hrun.trans hu) (fun _ _ hu => hu) (fun _ hu => hu)

theorem Leads.bind (h : x.Leads R s) {f : α → Exec φ ε σ β}
    (hf : ∀ a t, ReflTransGen R s t → (f a).Leads R t) : (x >>= f).Leads R s :=
  Leads.post h fun a t hrun => ⟨hrun, hf a t hrun⟩

theorem leads_get {f : σ → Exec φ ε σ β} (h : (f s).Leads R s) : (get >>= f).Leads R s := h

theorem leads_assert_bind {g : φ} {c : Prop} [Decidable c] {f : PUnit → Exec φ ε σ β}
    (h : c → (f ⟨⟩).Leads R s) : (assert g c >>= f).Leads R s := by
  unfold Leads
  rw [post_bind, post_assert]
  exact ⟨fun hc => h hc, fun _ => trivial⟩

theorem leads_doomed {g : φ} (h : x.Post s (fun _ _ => True) (fun _ _ => False) fun _ => True) :
    (x >>= fun _ => (abort g : Exec φ ε σ β)).Leads R s := by
  unfold Leads
  rw [post_bind]
  exact h.mono (fun _ _ _ => trivial) (fun _ _ hfalse => hfalse) (fun _ _ => trivial)

theorem leads_when {c : Prop} [Decidable c] {x : Exec φ ε σ PUnit} (h : c → x.Leads R s) :
    (Exec.when c x).Leads R s := by
  unfold Leads
  rw [post_when]
  exact ⟨h, fun _ => ReflTransGen.refl⟩

theorem leads_forEach {body : β → Exec φ ε σ PUnit} {xs : List β}
    (h : ∀ b ∈ xs, ∀ t, ReflTransGen R s t → (body b).Leads R t) :
    (forEach xs body).Leads R s := by
  induction xs generalizing s with
  | nil => exact leads_pure _
  | cons b rest ih =>
      rw [forEach]
      refine (h b (by simp) s .refl).bind fun _ t hrun => ih fun c hc u hu => ?_
      exact h c (by simp [hc]) u (hrun.trans hu)

theorem Leads.mono (h : x.Leads R s) (hR : ∀ t u, R t u → R' t u) : x.Leads R' s :=
  Post.mono h (fun _ _ hrun => ReflTransGen.mono hR _ _ hrun) (fun _ _ h => h) (fun _ h => h)

theorem Leads.preserves {I : σ → Prop} (h : x.Leads R s) (hs : I s)
    (step : ∀ t u, I t → R t u → I u) :
    x.Post s (fun _ t => I t) (fun _ _ => False) fun _ => True := by
  have hrun : ∀ t, ReflTransGen R s t → I t := by
    intro t hrun
    induction hrun with
    | refl => exact hs
    | tail _ hstep ih => exact step _ _ ih hstep
  exact Post.mono h (fun _ t ht => hrun t ht) (fun _ _ h => h) (fun _ h => h)

/-! ## Invariants of calls -/

variable {I J : σ → Prop}

/-- However a call returns, `I` holds. -/
def Keeps (I : σ → Prop) (x : Exec φ ε σ α) (s : σ) : Prop :=
  x.Post s (fun _ t => I t) (fun _ t => I t) fun _ => True

theorem keeps_pure (a : α) (h : I s) : (pure a : Exec φ ε σ α).Keeps I s := h

theorem keeps_throw (e : ε) (h : I s) : (throw e : Exec φ ε σ α).Keeps I s := h

theorem keeps_abort (f : φ) : (abort f : Exec φ ε σ α).Keeps I s := trivial

theorem keeps_modify {f : σ → σ} (h : I (f s)) : (modify f : Exec φ ε σ PUnit).Keeps I s := h

theorem keeps_assert (f : φ) (c : Prop) [Decidable c] (h : I s) :
    (assert f c : Exec φ ε σ PUnit).Keeps I s := by
  unfold Keeps
  rw [post_assert]
  exact ⟨fun _ => h, fun _ => trivial⟩

theorem keeps_require (e : ε) (c : Prop) [Decidable c] (h : I s) :
    (require e c : Exec φ ε σ PUnit).Keeps I s := by
  unfold Keeps
  rw [post_require]
  exact ⟨fun _ => h, fun _ => h⟩

theorem Keeps.post {Q : α → σ → Prop} (h : x.Post s Q (fun _ t => I t) fun _ => True)
    {f : α → Exec φ ε σ β} (hf : ∀ a t, Q a t → (f a).Keeps I t) : (x >>= f).Keeps I s := by
  unfold Keeps
  rw [post_bind]
  exact h.mono hf (fun _ _ ht => ht) (fun _ ht => ht)

theorem Keeps.bind (h : x.Keeps I s) {f : α → Exec φ ε σ β}
    (hf : ∀ a t, I t → (f a).Keeps I t) : (x >>= f).Keeps I s :=
  Keeps.post h hf

theorem Keeps.bind_of (h : x.Keeps J s) (hJ : ∀ t, J t → I t) {f : α → Exec φ ε σ β}
    (hf : ∀ a t, J t → (f a).Keeps I t) : (x >>= f).Keeps I s :=
  Keeps.post (Post.mono h (fun _ _ ht => ht) (fun _ t ht => hJ t ht) (fun _ ht => ht)) hf

theorem keeps_get {f : σ → Exec φ ε σ β} (h : (f s).Keeps I s) : (get >>= f).Keeps I s := h

theorem keeps_modify_bind {g : σ → σ} {f : PUnit → Exec φ ε σ β} (h : (f ⟨⟩).Keeps I (g s)) :
    (modify g >>= f).Keeps I s := h

theorem keeps_require_bind {e : ε} {c : Prop} [Decidable c] {f : PUnit → Exec φ ε σ β}
    (hs : I s) (h : c → (f ⟨⟩).Keeps I s) : (require e c >>= f).Keeps I s := by
  unfold Keeps
  rw [post_bind, post_require]
  exact ⟨h, fun _ => hs⟩

theorem keeps_assert_bind {g : φ} {c : Prop} [Decidable c] {f : PUnit → Exec φ ε σ β}
    (h : c → (f ⟨⟩).Keeps I s) : (assert g c >>= f).Keeps I s := by
  unfold Keeps
  rw [post_bind, post_assert]
  exact ⟨h, fun _ => trivial⟩

theorem keeps_read_bind {g : φ} {look : σ → Option α} {f : α → Exec φ ε σ β}
    (h : ∀ a, look s = some a → (f a).Keeps I s) : (read g look >>= f).Keeps I s := by
  unfold Keeps
  rw [post_bind, post_read]
  exact ⟨h, fun _ => trivial⟩

theorem keeps_lookup_bind {look : σ → Except φ α} {f : α → Exec φ ε σ β}
    (h : ∀ a, look s = .ok a → (f a).Keeps I s) : (lookup look >>= f).Keeps I s := by
  unfold Keeps
  rw [post_bind, post_lookup]
  exact ⟨h, fun _ _ => trivial⟩

theorem Keeps.value (h : x.Keeps I s) {a : α} (hx : x s = .value a t) : I t :=
  Post.value h hx

theorem keeps_when {c : Prop} [Decidable c] {x : Exec φ ε σ PUnit} (hs : I s)
    (h : c → x.Keeps I s) : (Exec.when c x).Keeps I s := by
  unfold Keeps
  rw [post_when]
  exact ⟨h, fun _ => hs⟩

theorem keeps_forEach {body : β → Exec φ ε σ PUnit} {xs : List β} (hs : I s)
    (h : ∀ b ∈ xs, ∀ t, I t → (body b).Keeps I t) : (forEach xs body).Keeps I s := by
  induction xs generalizing s with
  | nil => exact hs
  | cons b rest ih =>
      rw [forEach]
      exact (h b (by simp) s hs).bind fun _ t ht => ih ht fun c hc => h c (by simp [hc])

theorem Keeps.mono (h : x.Keeps I s) (hI : ∀ t, I t → J t) : x.Keeps J s :=
  Post.mono h (fun _ t => hI t) (fun _ t => hI t) (fun _ h => h)

theorem Leads.keeps (h : x.Leads R s) (hs : I s) (step : ∀ t u, I t → R t u → I u) :
    x.Keeps I s :=
  Post.mono (h.preserves hs step) (fun _ _ ht => ht) (fun _ _ ht => ht.elim) (fun _ h => h)

end Exec

/-- A call moves the state when it returns, with a value or with a code. -/
def Moves (x : Exec φ ε σ α) (s t : σ) : Prop := (x s).state? = some t

/-- The state a call leaves, the old one if it aborts. -/
def Exec.after (x : Exec φ ε σ α) (s : σ) : σ := (x s).state?.getD s

theorem moves_after {x : Exec φ ε σ α} {s : σ} (h : (x s).state?.isSome = true) :
    Moves x s (x.after s) := by
  obtain ⟨t, ht⟩ := Option.isSome_iff_exists.mp h
  simp [Moves, Exec.after, ht]

theorem Exec.value_after {x : Exec φ ε σ α} {s : σ} {a : α} (h : (x s).value? = some a) :
    x s = .value a (x.after s) := by
  unfold Exec.after
  cases hx : x s with
  | value b t =>
      rw [hx] at h
      obtain rfl := Option.some.inj h
      rfl
  | error e t => simp [hx, Outcome.value?] at h
  | fault f => simp [hx, Outcome.value?] at h

theorem Exec.error_after {x : Exec φ ε σ α} {s : σ} {e : ε} (h : (x s).code? = some e) :
    x s = .error e (x.after s) := by
  unfold Exec.after
  cases hx : x s with
  | value b t => simp [hx, Outcome.code?] at h
  | error e' t =>
      rw [hx] at h
      obtain rfl := Option.some.inj h
      rfl
  | fault f => simp [hx, Outcome.code?] at h

theorem Exec.Post.moves {x : Exec φ ε σ α} {s t : σ} {Q : σ → Prop} {F : φ → Prop}
    (h : x.Post s (fun _ t => Q t) (fun _ t => Q t) F) (hm : Moves x s t) : Q t := by
  unfold Moves at hm
  cases hx : x s with
  | value a u =>
      simp only [hx, Outcome.state?, Option.some.injEq] at hm
      exact hm ▸ h.value hx
  | error e u =>
      simp only [hx, Outcome.state?, Option.some.injEq] at hm
      exact hm ▸ h.error hx
  | fault f => simp [hx, Outcome.state?] at hm

/-- States reached from `init` by finitely many steps. -/
inductive Reachable (init : σ → Prop) (step : σ → σ → Prop) : σ → Prop
  | start {s : σ} (h : init s) : Reachable init step s
  | step {s t : σ} (h : Reachable init step s) (hs : step s t) : Reachable init step t

/-- Invariant rule: what holds at the start and survives each step holds throughout. -/
theorem Reachable.invariant {init : σ → Prop} {step : σ → σ → Prop} {I : σ → Prop}
    (hinit : ∀ s, init s → I s) (hstep : ∀ s t, I s → step s t → I t) {s : σ}
    (h : Reachable init step s) : I s := by
  induction h with
  | start h => exact hinit _ h
  | step _ hs ih => exact hstep _ _ ih hs

/-- A stronger step relation reaches no further. -/
theorem Reachable.mono {init init' : σ → Prop} {step step' : σ → σ → Prop}
    (hi : ∀ s, init s → init' s) (hs : ∀ s t, step s t → step' s t) {s : σ}
    (h : Reachable init step s) : Reachable init' step' s := by
  induction h with
  | start h => exact .start (hi _ h)
  | step _ h ih => exact .step ih (hs _ _ h)

end Cytrus.Support
