import Cytrus.Kernel.HleIpc

/-!
# The cursor of a translation

Every step of a translation uses some words from the cursor on and moves the
cursor over some of them. A command is left in its own words exactly when no
descriptor that takes one more word is its last word.
-/

namespace Cytrus.Kernel.Ipc

open Support Memory
open Exec (post_bind post_get post_modify post_ite)

variable {α β γ : Type} {s t : Translation α} {adv width adv' width' n : Nat}

/-! ## Steps that use a bounded number of words -/

/-- The trace has grown by words that lie less than `width` words after the cursor. -/
def Within (s : Translation α) (width : Nat) (touched : List Nat) : Prop :=
  ∀ k ∈ touched, k ∈ s.touched ∨ s.i ≤ k ∧ k < s.i + width

/-- The cursor has moved by `adv`, and the words behind it and from `width` on are as they were. -/
structure Advanced (s : Translation α) (adv width : Nat) (t : Translation α) : Prop where
  i_eq : t.i = s.i + adv
  behind : ∀ k < s.i, t.cmdBuf k = s.cmdBuf k
  ahead : ∀ k, s.i + width ≤ k → t.cmdBuf k = s.cmdBuf k
  within : Within s width t.touched

theorem Advanced.ahead_of_le (h : Advanced s adv width t) (hw : width ≤ width') :
    ∀ k, s.i + width' ≤ k → t.cmdBuf k = s.cmdBuf k :=
  fun k hk => h.ahead k (by omega)

/-- A step that moves the cursor by `adv` and uses no more than `width` words. -/
def Uses (adv width : Nat) (x : Trans α β) : Prop :=
  ∀ s, x.Post s (fun _ t => Advanced s adv width t) (fun _ t => Within s width t.touched)
    (fun f => f.1 ≠ .endlessLoop ∧ Within s width f.2)

theorem Within.mono {touched : List Nat} (h : Within s width touched) (hw : width ≤ width') :
    Within s width' touched := by
  intro k hk
  rcases h k hk with hold | hnew
  · exact .inl hold
  · exact .inr ⟨hnew.1, by omega⟩

theorem Within.self (s : Translation α) (width : Nat) : Within s width s.touched :=
  fun _ hk => .inl hk

theorem Advanced.trans_within {touched : List Nat} (h : Advanced s adv width t)
    (h' : Within t width' touched) (hw : width ≤ n) (hw' : adv + width' ≤ n) :
    Within s n touched := by
  have hi := h.i_eq
  intro k hk
  rcases h' k hk with hold | hnew
  · exact (h.within.mono hw) k hold
  · exact .inr ⟨by omega, by omega⟩

theorem Uses.bind {x : Trans α β} {f : β → Trans α γ} (hx : Uses adv width x)
    (hf : ∀ b, Uses adv' width' (f b)) (hw : width ≤ n) (hw' : adv + width' ≤ n) :
    Uses (adv + adv') n (x >>= f) := by
  intro s
  rw [post_bind]
  refine (hx s).mono (fun b t ht => ?_) (fun _ _ h => h.mono hw) (fun _ h => ⟨h.1, h.2.mono hw⟩)
  have hi := ht.i_eq
  refine (hf b t).mono (fun c u hu => ?_) (fun _ _ h => ht.trans_within h hw hw')
    (fun _ h => ⟨h.1, ht.trans_within h.2 hw hw'⟩)
  refine ⟨by rw [hu.i_eq, hi, Nat.add_assoc], fun k hk => ?_, fun k hk => ?_,
    ht.trans_within hu.within hw hw'⟩
  · rw [hu.behind k (by omega), ht.behind k hk]
  · rw [hu.ahead k (by omega), ht.ahead k (by omega)]

theorem Uses.get {f : Translation α → Trans α β}
    (hf : ∀ s, (f s).Post s (fun _ t => Advanced s adv width t)
      (fun _ t => Within s width t.touched)
      (fun g => g.1 ≠ .endlessLoop ∧ Within s width g.2)) :
    Uses adv width (Exec.get >>= f) := by
  intro s
  rw [post_bind, post_get]
  exact hf s

/-! ## Steps that use no word -/

/-- Nothing that the cursor depends on has changed. -/
structure SameCursor (s t : Translation α) : Prop where
  i_eq : t.i = s.i
  cmdBuf_eq : t.cmdBuf = s.cmdBuf
  touched_eq : t.touched = s.touched

theorem SameCursor.advanced (h : SameCursor s t) : Advanced s 0 0 t where
  i_eq := h.i_eq
  behind k _ := by rw [h.cmdBuf_eq]
  ahead k _ := by rw [h.cmdBuf_eq]
  within := by rw [h.touched_eq]; exact .self s 0

/-- A step that leaves the cursor alone. -/
def Still (x : Trans α β) : Prop :=
  ∀ s, x.Post s (fun _ t => SameCursor s t) (fun _ t => t.touched = s.touched)
    (fun f => f.1 ≠ .endlessLoop ∧ f.2 = s.touched)

theorem Still.uses {x : Trans α β} (h : Still x) : Uses 0 0 x := by
  intro s
  refine (h s).mono (fun _ _ ht => ht.advanced) (fun _ t ht => ?_) (fun f hf => ⟨hf.1, ?_⟩)
  · rw [ht]
    exact .self s 0
  · rw [hf.2]
    exact .self s 0

theorem still_pure (b : β) : Still (pure b : Trans α β) := fun _ => ⟨rfl, rfl, rfl⟩

theorem still_abort (f : Fault) : Still (abort f : Trans α β) := fun _ => ⟨by simp, rfl⟩

theorem Still.bind {x : Trans α β} {f : β → Trans α γ} (hx : Still x) (hf : ∀ b, Still (f b)) :
    Still (x >>= f) := by
  intro s
  rw [post_bind]
  refine (hx s).mono (fun b t ht => ?_) (fun _ _ h => h) (fun _ h => h)
  refine (hf b t).mono (fun c u hu => ?_) (fun _ u hu => hu.trans ht.touched_eq)
    (fun _ hu => ⟨hu.1, hu.2.trans ht.touched_eq⟩)
  exact ⟨hu.i_eq.trans ht.i_eq, hu.cmdBuf_eq.trans ht.cmdBuf_eq,
    hu.touched_eq.trans ht.touched_eq⟩

theorem still_get : Still (Exec.get : Trans α (Translation α)) := fun _ => ⟨rfl, rfl, rfl⟩

theorem still_modify {f : Translation α → Translation α} (hf : ∀ s, SameCursor s (f s)) :
    Still (Exec.modify f) := fun s => hf s

theorem still_assert (c : Prop) [Decidable c] : Still (assert c : Trans α PUnit) := by
  intro s
  by_cases hc : c
  · simp only [assert, if_pos hc]
    exact still_pure _ s
  · simp only [assert, if_neg hc]
    exact still_abort _ s

theorem still_when {c : Prop} [Decidable c] {x : Trans α PUnit} (hx : Still x) :
    Still (Exec.when c x) := by
  unfold Exec.when
  split
  · exact hx
  · exact still_pure _

theorem still_within {σ : Type} {look : Translation α → σ}
    {put : Translation α → σ → Translation α} {x : Exec Fault ResultCode σ β}
    (hput : ∀ s v, SameCursor s (put s v)) : Still (within look put x) := by
  intro s
  rw [post_within]
  exact Exec.post_iff.mpr ⟨fun _ t _ => hput s t, fun _ t _ => (hput s t).touched_eq,
    fun _ _ => ⟨by simp, rfl⟩⟩

theorem still_onTable (pid : Nat) (x : HandleTable.Handles α β) : Still (onTable pid x) :=
  still_within fun _ _ => ⟨rfl, rfl, rfl⟩

theorem still_onVm (pid : Nat) (x : VM β) : Still (onVm pid x : Trans α β) :=
  still_within fun _ _ => ⟨rfl, rfl, rfl⟩

theorem still_unwrap {x : Trans α β} (hx : Still x) : Still (unwrap x) := by
  intro s
  rw [post_unwrap]
  exact (hx s).mono (fun _ _ h => h) (fun _ _ h => ⟨by simp, h⟩) (fun _ h => h)

theorem still_ignore {x : Trans α PUnit} (hx : ∀ s, x.Post s (fun _ t => SameCursor s t)
    (fun _ t => SameCursor s t) (fun f => f.1 ≠ .endlessLoop ∧ f.2 = s.touched)) :
    Still (ignore x) := by
  intro s
  rw [post_ignore]
  exact (hx s).mono (fun _ _ h => h) (fun _ _ h => h) (fun _ h => h)

theorem still_readBlock (pid addr size : Nat) : Still (readBlock pid addr size : Trans α _) := by
  unfold readBlock
  refine still_get.bind fun s => ?_
  split
  · exact still_pure _
  · exact still_abort _

theorem still_writeBlock (pid addr : Nat) (data : List UInt8) :
    Still (writeBlock pid addr data : Trans α _) := by
  unfold writeBlock
  refine still_get.bind fun s => ?_
  split
  · exact still_modify fun _ => ⟨rfl, rfl, rfl⟩
  · exact still_abort _

theorem still_copyBlock (destPid srcPid destAddr srcAddr size : Nat) :
    Still (copyBlock destPid srcPid destAddr srcAddr size : Trans α _) := by
  unfold copyBlock
  refine still_get.bind fun s => ?_
  split
  · exact still_modify fun _ => ⟨rfl, rfl, rfl⟩
  · exact still_abort _

theorem still_makeBuffer (size : Nat) : Still (makeBuffer size : Trans α _) := by
  unfold makeBuffer
  refine still_get.bind fun s => ?_
  exact Still.bind (still_modify fun _ => ⟨rfl, rfl, rfl⟩) fun _ => still_pure _

/-! ## Words -/

/-- A state in which one more word has been touched. -/
def touching (s : Translation α) (k : Nat) : Translation α := { s with touched := k :: s.touched }

theorem within_touching (s : Translation α) : Within s 1 (touching s s.i).touched := by
  intro k hk
  rcases List.mem_cons.mp hk with rfl | hk
  · exact .inr ⟨le_rfl, by omega⟩
  · exact .inl hk

theorem advanced_touching (s : Translation α) : Advanced s 0 1 (touching s s.i) :=
  ⟨rfl, fun _ _ => rfl, fun _ _ => rfl, within_touching s⟩

theorem post_touch {E : ResultCode → Translation α → Prop} (k : Nat) :
    (touch k).Post s (fun _ t => t = touching s k ∧ k < commandBufferLength) E
      (fun f => f = (.kernel .outOfBounds, k :: s.touched) ∧ commandBufferLength ≤ k) := by
  unfold touch mark
  rw [post_bind, post_modify, post_ite]
  exact ⟨fun hk => ⟨rfl, hk⟩, fun hk => ⟨rfl, Nat.le_of_not_lt hk⟩⟩

theorem post_readWord {E : ResultCode → Translation α → Prop} (k : Nat) :
    (readWord k).Post s
      (fun word t => word = s.cmdBuf k ∧ t = touching s k ∧ k < commandBufferLength) E
      (fun f => f = (.kernel .outOfBounds, k :: s.touched) ∧ commandBufferLength ≤ k) := by
  unfold readWord
  rw [post_bind]
  refine (post_touch k).mono ?_ (fun _ _ h => h) (fun _ h => h)
  rintro _ t ⟨rfl, hk⟩
  exact ⟨rfl, rfl, hk⟩

theorem Uses.read {f : Translation α → Nat → Trans α β}
    (hf : ∀ s word, Uses adv width (f s word)) (hn : 1 ≤ n) (hw : width ≤ n) :
    Uses adv n (Exec.get >>= fun s => readWord s.i >>= f s) := by
  refine Uses.get fun s => ?_
  rw [post_bind]
  refine (post_readWord s.i).mono ?_ (fun _ _ h => h) ?_
  · rintro word t ⟨-, rfl, -⟩
    have hs := advanced_touching s
    refine (hf s word _).mono (fun _ u hu => ?_) (fun _ _ h => hs.trans_within h hn (by omega))
      (fun _ h => ⟨h.1, hs.trans_within h.2 hn (by omega)⟩)
    exact ⟨hu.i_eq, hu.behind, hu.ahead_of_le hw, hs.trans_within hu.within hn (by omega)⟩
  · rintro _ ⟨rfl, -⟩
    exact ⟨by simp, (within_touching s).mono hn⟩

theorem Uses.marked {f : Translation α → Trans α β} (hf : ∀ s, Uses adv width (f s)) (hn : 1 ≤ n)
    (hw : width ≤ n) : Uses adv n (Exec.get >>= fun s => mark s.i >>= fun _ => f s) := by
  refine Uses.get fun s => ?_
  rw [post_bind, mark, post_modify]
  have hs := advanced_touching s
  refine (hf s _).mono (fun _ u hu => ?_) (fun _ _ h => hs.trans_within h hn (by omega))
    (fun _ h => ⟨h.1, hs.trans_within h.2 hn (by omega)⟩)
  exact ⟨hu.i_eq, hu.behind, hu.ahead_of_le hw, hs.trans_within hu.within hn (by omega)⟩

theorem uses_pushWord (value : Nat) : Uses 1 1 (pushWord value : Trans α _) := by
  unfold pushWord writeWord
  refine Uses.get fun s => ?_
  rw [post_bind, post_bind]
  refine (post_touch s.i).mono ?_ (fun _ _ h => h) ?_
  · rintro _ t ⟨rfl, -⟩
    refine ⟨rfl, fun k hk => ?_, fun k hk => ?_, within_touching s⟩
    · exact Function.update_of_ne (by omega) ..
    · exact Function.update_of_ne (by omega) ..
  · rintro _ ⟨rfl, -⟩
    exact ⟨by simp, within_touching s⟩

theorem uses_replyWord (value : Nat) : Uses 1 1 (replyWord value : Trans α _) := by
  unfold replyWord
  refine Uses.get fun s => ?_
  simp only [mark, onContext, post_bind, post_modify]
  exact ⟨rfl, fun _ _ => rfl, fun _ _ => rfl, within_touching s⟩

theorem uses_abort (f : Fault) : Uses adv width (abort f : Trans α β) :=
  fun s => ⟨by simp, .self s width⟩

theorem uses_skip {f : Translation α → Translation α}
    (hf : ∀ s, SameCursor { s with i := s.i + 1 } (f s)) : Uses 1 1 (Exec.modify f) := by
  intro s
  have h := hf s
  refine ⟨h.i_eq, fun k _ => by rw [h.cmdBuf_eq], fun k _ => by rw [h.cmdBuf_eq], ?_⟩
  rw [h.touched_eq]
  exact .self s 1

/-! ## The steps of the descriptors -/

theorem still_onContext (f : HLERequestContext α → HLERequestContext α) : Still (onContext f) :=
  still_modify fun _ => ⟨rfl, rfl, rfl⟩

theorem still_addOutgoingHandle (object : Option α) : Still (addOutgoingHandle object) := by
  unfold addOutgoingHandle
  exact still_get.bind fun _ => (still_onContext _).bind fun _ => still_pure _

theorem still_getIncomingHandle (id : Nat) : Still (getIncomingHandle id : Trans α _) := by
  unfold getIncomingHandle
  refine still_get.bind fun s => ?_
  split
  · exact still_pure _
  · exact still_abort _

theorem still_close (pid handle : Nat) :
    Still (ignore (onTable pid (HandleTable.close handle)) : Trans α _) := by
  refine still_ignore fun s => ?_
  rw [onTable, post_within]
  exact Exec.post_iff.mpr ⟨fun _ _ _ => ⟨rfl, rfl, rfl⟩, fun _ _ _ => ⟨rfl, rfl, rfl⟩,
    fun _ _ => ⟨by simp, rfl⟩⟩

theorem Uses.still_bind {x : Trans α β} {f : β → Trans α γ} (hx : Still x)
    (hf : ∀ b, Uses adv width (f b)) : Uses adv width (x >>= f) := by
  have hbind := hx.uses.bind hf (Nat.zero_le width) (Nat.zero_add width).le
  rwa [Nat.zero_add] at hbind

theorem Uses.bind_still {x : Trans α β} {f : β → Trans α γ} (hx : Uses adv width x)
    (hf : ∀ b, Still (f b)) (hw : adv ≤ width := by omega) : Uses adv width (x >>= f) :=
  hx.bind (fun b => (hf b).uses) le_rfl hw

theorem uses_iterate {x : Nat → Trans α PUnit} {step : Trans α PUnit} (hstep : Uses 1 1 step)
    (hzero : x 0 = pure ⟨⟩) (hsucc : ∀ n, x (n + 1) = step >>= fun _ => x n) :
    ∀ n, Uses n n (x n) := by
  intro n
  induction n with
  | zero =>
      rw [hzero]
      exact (still_pure _).uses
  | succ n ih =>
      rw [hsucc, Nat.add_comm]
      exact hstep.bind (fun _ => ih) (by omega) (by omega)

theorem uses_translateHandle (r : Request α) (descriptor : Nat) :
    Uses 1 1 (translateHandle r descriptor) := by
  unfold translateHandle
  refine Uses.read (fun s handle => ?_) le_rfl le_rfl
  refine Uses.still_bind (still_when (still_close _ _)) fun _ => ?_
  cases objectOf r (s.processes r.src) handle with
  | none => exact uses_pushWord 0
  | some object => exact Uses.still_bind (still_unwrap (still_onTable _ _)) fun _ => uses_pushWord _

theorem uses_translateStaticBuffer (r : Request α) (descriptor : Nat) :
    Uses 1 1 (translateStaticBuffer r descriptor) := by
  unfold translateStaticBuffer
  refine Uses.read (fun s sourceAddress => ?_) le_rfl le_rfl
  refine Uses.still_bind (still_readBlock _ _ _) fun data => ?_
  refine Uses.still_bind (still_readBlock _ _ _) fun target => ?_
  split
  · refine Uses.still_bind (still_assert _) fun _ => ?_
    exact Uses.still_bind (still_writeBlock _ _ _) fun _ => uses_pushWord _
  · exact uses_abort _

theorem uses_returnBuffer (r : Request α) (descriptor sourceAddress : Nat) :
    Uses 1 1 (returnBuffer r descriptor sourceAddress) := by
  unfold returnBuffer
  refine Uses.still_bind still_get fun s => ?_
  dsimp only
  split
  · exact uses_abort _
  · refine Uses.still_bind (still_when (still_copyBlock _ _ _ _ _)) fun _ => ?_
    generalize sub32 _ _ = low
    generalize add32 _ _ = high
    refine Uses.still_bind (still_onVm _ _) fun prev => ?_
    refine Uses.still_bind (still_onVm _ _) fun next => ?_
    refine Uses.still_bind (still_assert _) fun _ => ?_
    refine Uses.still_bind (still_unwrap (still_onVm _ _)) fun _ => ?_
    exact uses_skip fun _ => ⟨rfl, rfl, rfl⟩

theorem uses_sendBuffer (r : Request α) (descriptor sourceAddress : Nat) :
    Uses 1 1 (sendBuffer r descriptor sourceAddress) := by
  unfold sendBuffer
  refine Uses.still_bind (still_makeBuffer _) fun buffer => ?_
  refine Uses.still_bind (still_readBlock _ _ _) fun data => ?_
  refine Uses.still_bind (still_modify fun _ => ⟨rfl, rfl, rfl⟩) fun _ => ?_
  refine Uses.still_bind (still_unwrap (still_onVm _ _)) fun target => ?_
  refine Uses.still_bind (still_unwrap (still_onVm _ _)) fun _ => ?_
  refine Uses.still_bind (still_unwrap (still_onVm _ _)) fun _ => ?_
  exact Uses.bind_still (uses_pushWord _) fun _ => still_modify fun _ => ⟨rfl, rfl, rfl⟩

theorem uses_translateMappedBuffer (r : Request α) (descriptor : Nat) :
    Uses 1 1 (translateMappedBuffer r descriptor) := by
  unfold translateMappedBuffer
  refine Uses.read (fun s sourceAddress => ?_) le_rfl le_rfl
  split
  · exact uses_pushWord 0
  · refine Uses.still_bind (still_assert _) fun _ => ?_
    split
    · exact uses_returnBuffer r descriptor sourceAddress
    · exact uses_sendBuffer r descriptor sourceAddress

theorem uses_populateHandle (r : Incoming α) (descriptor : Nat) :
    Uses 1 1 (populateHandle r descriptor) := by
  unfold populateHandle
  refine Uses.marked (fun s => ?_) le_rfl le_rfl
  refine Uses.still_bind (still_when ((still_assert _).bind fun _ =>
    still_when (still_close _ _))) fun _ => ?_
  refine Uses.still_bind (still_addOutgoingHandle _) fun index => ?_
  exact uses_pushWord index

theorem uses_populateStaticBuffer (r : Incoming α) (descriptor : Nat) :
    Uses 1 1 (populateStaticBuffer r descriptor) := by
  unfold populateStaticBuffer
  refine Uses.marked (fun s => ?_) le_rfl le_rfl
  refine Uses.still_bind (still_readBlock _ _ _) fun data => ?_
  exact Uses.still_bind (still_onContext _) fun _ => uses_pushWord _

theorem uses_populateMappedBuffer (r : Incoming α) (descriptor : Nat) :
    Uses 1 1 (populateMappedBuffer r descriptor) := by
  unfold populateMappedBuffer
  refine Uses.marked (fun s => ?_) le_rfl le_rfl
  exact Uses.still_bind (still_onContext _) fun _ => uses_pushWord _

theorem uses_writeHandle (dstProcess : Nat) : Uses 1 1 (writeHandle dstProcess : Trans α _) := by
  unfold writeHandle
  refine Uses.read (fun s id => ?_) le_rfl le_rfl
  refine Uses.still_bind (still_getIncomingHandle id) fun object => ?_
  cases object with
  | none => exact uses_replyWord 0
  | some object =>
      exact Uses.still_bind (still_unwrap (still_onTable _ _)) fun _ => uses_replyWord _

theorem uses_writeStaticBuffer (dstProcess descriptor : Nat) :
    Uses 1 1 (writeStaticBuffer dstProcess descriptor : Trans α _) := by
  unfold writeStaticBuffer
  refine Uses.still_bind still_get fun s => ?_
  refine Uses.still_bind (still_assert _) fun _ => ?_
  exact Uses.still_bind (still_writeBlock _ _ _) fun _ => uses_replyWord _

theorem uses_writeMappedBuffer : Uses 1 1 (writeMappedBuffer : Trans α _) := by
  unfold writeMappedBuffer
  refine Uses.read (fun s id => ?_) le_rfl le_rfl
  split
  · exact uses_replyWord _
  · exact uses_abort _

/-! ## What follows a descriptor -/

/-- The words after a descriptor that belong to it. -/
inductive Operands where
  /-- So many handles; their number is checked against the size of the command. -/
  | handles (n : Nat)
  /-- One word, which is not checked. -/
  | word
  | none
  deriving DecidableEq

namespace Operands

def count : Operands → Nat
  | handles n => n
  | word => 1
  | none => 0

/-- The handles, if there are any, lie in the command. -/
def Fits (commandSize i : Nat) : Operands → Prop
  | handles n => i + n ≤ commandSize
  | word => True
  | none => True

instance (commandSize i : Nat) (o : Operands) : Decidable (o.Fits commandSize i) := by
  cases o <;> unfold Fits <;> infer_instance

end Operands

/-- The operands in a request, or in any command between two processes. -/
def operands (descriptor : Nat) : Operands :=
  match getDescriptorType descriptor with
  | .copyHandle => .handles (handleNumberFromDesc descriptor)
  | .moveHandle => .handles (handleNumberFromDesc descriptor)
  | .callingPid => .word
  | .staticBuffer => .word
  | .mappedBuffer => .word
  | .pxiBuffer => .none
  | .unknown => .none

/-- The operands in the reply of an HLE service. -/
def replyOperands (descriptor : Nat) : Operands :=
  if getDescriptorType descriptor = .callingPid then .none else operands descriptor

/-- The operands of a descriptor are the only words that its case uses; with too many handles it
uses none. -/
structure Takes (ops : Operands) (commandSize : Nat) (body : Trans α PUnit) : Prop where
  fits : ∀ s, ops.Fits commandSize s.i → body.Post s
    (fun _ t => Advanced s ops.count ops.count t) (fun _ t => Within s ops.count t.touched)
    (fun f => f.1 ≠ .endlessLoop ∧ Within s ops.count f.2)
  refuses : ∀ s, ¬ ops.Fits commandSize s.i → body.Post s (fun _ _ => False)
    (fun _ t => t.touched = s.touched) (fun f => f.1 ≠ .endlessLoop ∧ f.2 = s.touched)

theorem uses_translateHandles (r : Request α) (descriptor n : Nat) :
    Uses n n (translateHandles r descriptor n) :=
  uses_iterate (uses_translateHandle r descriptor) rfl (fun _ => rfl) n

theorem uses_populateHandles (r : Incoming α) (descriptor n : Nat) :
    Uses n n (populateHandles r descriptor n) :=
  uses_iterate (uses_populateHandle r descriptor) rfl (fun _ => rfl) n

theorem uses_writeHandles (dstProcess n : Nat) :
    Uses n n (writeHandles dstProcess n : Trans α _) :=
  uses_iterate (uses_writeHandle dstProcess) rfl (fun _ => rfl) n

theorem uses_callingPid (pid : Nat) : Uses 1 1 (do
    let s ← (Exec.get : Trans α _)
    pushWord (s.processes pid).processId) :=
  Uses.still_bind still_get fun _ => uses_pushWord _

theorem takes_word {commandSize : Nat} {body : Trans α PUnit} (h : Uses 1 1 body) :
    Takes .word commandSize body :=
  ⟨fun s _ => h s, fun _ hs => absurd trivial hs⟩

theorem takes_none {commandSize : Nat} : Takes .none commandSize (pure ⟨⟩ : Trans α PUnit) :=
  ⟨fun s _ => (still_pure _).uses s, fun _ hs => absurd trivial hs⟩

theorem takes_translateHandles (r : Request α) (commandSize descriptor : Nat) :
    Takes (.handles (handleNumberFromDesc descriptor)) commandSize
      (translateHandleDescriptor r commandSize descriptor) := by
  constructor
  · intro s hs
    rw [translateHandleDescriptor, post_bind, post_get, post_bind,
      Exec.post_require]
    exact ⟨fun _ => uses_translateHandles r descriptor _ s, fun h => absurd hs h⟩
  · intro s hs
    rw [translateHandleDescriptor, post_bind, post_get, post_bind,
      Exec.post_require]
    exact ⟨fun h => absurd h hs, fun _ => rfl⟩

theorem takes_asserted {commandSize n : Nat} {body : Trans α PUnit} (hbody : Uses n n body) :
    Takes (.handles n) commandSize (do
      let s ← Exec.get
      assert (s.i + n ≤ commandSize)
      body) := by
  constructor
  · intro s hs
    rw [post_bind, post_get, post_bind, post_assert]
    exact ⟨fun _ => hbody s, fun h => absurd hs h⟩
  · intro s hs
    rw [post_bind, post_get, post_bind, post_assert]
    exact ⟨fun h => absurd h hs, fun _ => ⟨by simp, rfl⟩⟩

theorem takes_translateDescriptor (r : Request α) (commandSize descriptor : Nat) :
    Takes (operands descriptor) commandSize (translateDescriptor r commandSize descriptor) := by
  unfold operands translateDescriptor
  cases getDescriptorType descriptor with
  | copyHandle => exact takes_translateHandles r commandSize descriptor
  | moveHandle => exact takes_translateHandles r commandSize descriptor
  | callingPid => exact takes_word (uses_callingPid r.src)
  | staticBuffer => exact takes_word (uses_translateStaticBuffer r descriptor)
  | mappedBuffer => exact takes_word (uses_translateMappedBuffer r descriptor)
  | pxiBuffer => exact takes_none
  | unknown => exact takes_none

theorem takes_populateDescriptor (r : Incoming α) (commandSize descriptor : Nat) :
    Takes (operands descriptor) commandSize (populateDescriptor r commandSize descriptor) := by
  unfold operands populateDescriptor
  cases getDescriptorType descriptor with
  | copyHandle => exact takes_asserted (uses_populateHandles r descriptor _)
  | moveHandle => exact takes_asserted (uses_populateHandles r descriptor _)
  | callingPid => exact takes_word (uses_callingPid r.srcProcess)
  | staticBuffer => exact takes_word (uses_populateStaticBuffer r descriptor)
  | mappedBuffer => exact takes_word (uses_populateMappedBuffer r descriptor)
  | pxiBuffer => exact takes_none
  | unknown => exact takes_none

theorem takes_writeDescriptor (dstProcess commandSize descriptor : Nat) :
    Takes (replyOperands descriptor) commandSize
      (writeDescriptor dstProcess commandSize descriptor : Trans α _) := by
  unfold replyOperands operands writeDescriptor
  cases getDescriptorType descriptor with
  | copyHandle => exact takes_asserted (uses_writeHandles dstProcess _)
  | moveHandle => exact takes_asserted (uses_writeHandles dstProcess _)
  | callingPid => exact takes_none
  | staticBuffer => exact takes_word (uses_writeStaticBuffer dstProcess descriptor)
  | mappedBuffer => exact takes_word uses_writeMappedBuffer
  | pxiBuffer => exact takes_none
  | unknown => exact takes_none

/-! ## The loop over the descriptors -/

/-- A descriptor that takes a word is the last word of the command. -/
def dangling (ops : Nat → Operands) (word : Nat → Nat) (commandSize : Nat) : Nat → Nat → Bool
  | 0, _ => false
  | fuel + 1, i =>
      if i < commandSize then
        match ops (word i) with
        | .handles n =>
            if i + 1 + n ≤ commandSize then dangling ops word commandSize fuel (i + 1 + n)
            else false
        | .word =>
            if i + 1 = commandSize then true else dangling ops word commandSize fuel (i + 2)
        | .none => dangling ops word commandSize fuel (i + 1)
      else false

/-- A loop that reads its descriptors from `word`, as long as `Reads` holds. -/
structure Walks (ops : Nat → Operands) (word : Nat → Nat) (commandSize : Nat)
    (fetch : Trans α Nat) (body : Nat → Trans α PUnit) (Reads : Translation α → Prop) : Prop where
  fetch : ∀ s, Reads s → fetch.Post s (fun d t => d = word s.i ∧ Advanced s 1 1 t)
    (fun _ t => Within s 1 t.touched) (fun f => f.1 ≠ .endlessLoop ∧ Within s 1 f.2)
  body : ∀ d, Takes (ops d) commandSize (body d)
  keep : ∀ s t n, Reads s → Advanced s n n t → Reads t

section Loop

variable {ops : Nat → Operands} {word : Nat → Nat} {commandSize : Nat} {fetch : Trans α Nat}
  {body : Nat → Trans α PUnit} {Reads : Translation α → Prop}

theorem Advanced.trans {u : Translation α} (h : Advanced s adv adv t)
    (h' : Advanced t adv' adv' u) : Advanced s (adv + adv') (adv + adv') u where
  i_eq := by rw [h'.i_eq, h.i_eq, Nat.add_assoc]
  behind k hk := by
    have hi := h.i_eq
    rw [h'.behind k (by omega), h.behind k hk]
  ahead k hk := by
    have hi := h.i_eq
    rw [h'.ahead k (by omega), h.ahead k (by omega)]
  within := h.trans_within h'.within (by omega) le_rfl

theorem Walks.round (w : Walks ops word commandSize fetch body Reads) (hs : Reads s)
    (hfits : (ops (word s.i)).Fits commandSize (s.i + 1)) :
    (fetch >>= body).Post s
      (fun _ t => Advanced s (1 + (ops (word s.i)).count) (1 + (ops (word s.i)).count) t)
      (fun _ t => Within s (1 + (ops (word s.i)).count) t.touched)
      (fun f => f.1 ≠ .endlessLoop ∧ Within s (1 + (ops (word s.i)).count) f.2) := by
  rw [post_bind]
  refine (w.fetch s hs).mono ?_ (fun _ _ h => h.mono (by omega))
    (fun _ h => ⟨h.1, h.2.mono (by omega)⟩)
  rintro d t ⟨rfl, ht⟩
  rw [← ht.i_eq] at hfits
  exact ((w.body _).fits t hfits).mono (fun _ u hu => ht.trans hu)
    (fun _ _ h => ht.trans_within h (by omega) le_rfl)
    (fun _ h => ⟨h.1, ht.trans_within h.2 (by omega) le_rfl⟩)

theorem Walks.refused (w : Walks ops word commandSize fetch body Reads) (hs : Reads s)
    (hfits : ¬ (ops (word s.i)).Fits commandSize (s.i + 1)) :
    (fetch >>= body).Post s (fun _ _ => False) (fun _ t => Within s 1 t.touched)
      (fun f => f.1 ≠ .endlessLoop ∧ Within s 1 f.2) := by
  rw [post_bind]
  refine (w.fetch s hs).mono ?_ (fun _ _ h => h) (fun _ h => h)
  rintro d t ⟨rfl, ht⟩
  rw [← ht.i_eq] at hfits
  refine ((w.body _).refuses t hfits).mono (fun _ _ h => h) (fun _ u hu => ?_) (fun f hf => ?_)
  · rw [hu]
    exact ht.within
  · rw [hf.2]
    exact ⟨hf.1, ht.within⟩

theorem post_descriptorLoop {fuel : Nat} {Q : PUnit → Translation α → Prop}
    {E : ResultCode → Translation α → Prop} {F : TransFault × List Nat → Prop} :
    (descriptorLoop commandSize fetch body (fuel + 1)).Post s Q E F ↔
      (s.i < commandSize → (fetch >>= body).Post s
        (fun _ t => (descriptorLoop commandSize fetch body fuel).Post t Q E F) E F) ∧
      (¬ s.i < commandSize → Q ⟨⟩ s) := by
  simp only [descriptorLoop, post_bind, post_get, post_ite, Exec.post_pure]

theorem dangling_of_fits {fuel i : Nat} (hi : i < commandSize)
    (hfits : (ops (word i)).Fits commandSize (i + 1)) :
    dangling ops word commandSize (fuel + 1) i =
      if i + 1 + (ops (word i)).count ≤ commandSize then
        dangling ops word commandSize fuel (i + 1 + (ops (word i)).count)
      else true := by
  rw [dangling, if_pos hi]
  cases hops : ops (word i) with
  | handles n =>
      rw [hops] at hfits
      exact (if_pos hfits).trans (if_pos hfits).symm
  | word =>
      by_cases hlast : i + 1 = commandSize
      · exact (if_pos hlast).trans (if_neg (by simp only [Operands.count]; omega)).symm
      · exact (if_neg hlast).trans (if_pos (by simp only [Operands.count]; omega)).symm
  | none => exact (if_pos hi).symm

theorem dangling_of_not_fits {fuel i : Nat} (hi : i < commandSize)
    (hfits : ¬ (ops (word i)).Fits commandSize (i + 1)) :
    dangling ops word commandSize (fuel + 1) i = false := by
  rw [dangling, if_pos hi]
  cases hops : ops (word i) with
  | handles n =>
      rw [hops] at hfits
      exact if_neg hfits
  | word => simp [hops, Operands.Fits] at hfits
  | none => simp [hops, Operands.Fits] at hfits

theorem Walks.inside (w : Walks ops word commandSize fetch body Reads) :
    ∀ (fuel : Nat) (s : Translation α), Reads s → s.i ≤ commandSize →
      commandSize < s.i + fuel → dangling ops word commandSize fuel s.i = false →
      (descriptorLoop commandSize fetch body fuel).Post s
        (fun _ t => t.i = commandSize ∧ Within s (commandSize - s.i) t.touched)
        (fun _ t => Within s (commandSize - s.i) t.touched)
        (fun f => f.1 ≠ .endlessLoop ∧ Within s (commandSize - s.i) f.2) := by
  intro fuel
  induction fuel with
  | zero =>
      intro s _ hle hlt
      omega
  | succ fuel ih =>
      intro s hs hle hlt hdangling
      rw [post_descriptorLoop]
      refine ⟨fun hi => ?_, fun hi => ⟨by omega, .self s _⟩⟩
      by_cases hfits : (ops (word s.i)).Fits commandSize (s.i + 1)
      · rw [dangling_of_fits hi hfits] at hdangling
        have hroom : s.i + 1 + (ops (word s.i)).count ≤ commandSize := by
          by_contra hroom
          simp [hroom] at hdangling
        rw [if_pos hroom] at hdangling
        refine (w.round hs hfits).mono (fun _ t ht => ?_) (fun _ _ h => h.mono (by omega))
          (fun _ h => ⟨h.1, h.2.mono (by omega)⟩)
        have hi' : t.i = s.i + 1 + (ops (word s.i)).count := by rw [ht.i_eq]; omega
        have hrest := ih t (w.keep s t _ hs ht) (by omega) (by omega) (by rw [hi', hdangling])
        exact hrest.mono
          (fun _ u hu => ⟨hu.1, ht.trans_within hu.2 (by omega) (by omega)⟩)
          (fun _ _ hu => ht.trans_within hu (by omega) (by omega))
          (fun _ hu => ⟨hu.1, ht.trans_within hu.2 (by omega) (by omega)⟩)
      · exact (w.refused hs hfits).mono (fun _ _ h => h.elim) (fun _ _ h => h.mono (by omega))
          (fun _ h => ⟨h.1, h.2.mono (by omega)⟩)

theorem Walks.outside (w : Walks ops word commandSize fetch body Reads) :
    ∀ (fuel : Nat) (s : Translation α), Reads s →
      dangling ops word commandSize fuel s.i = true →
      (descriptorLoop commandSize fetch body fuel).Post s (fun _ t => commandSize < t.i)
        (fun _ _ => True) (fun _ => True) := by
  intro fuel
  induction fuel with
  | zero =>
      intro s _ hdangling
      simp [dangling] at hdangling
  | succ fuel ih =>
      intro s hs hdangling
      rw [post_descriptorLoop]
      refine ⟨fun hi => ?_, fun hi => ?_⟩
      · by_cases hfits : (ops (word s.i)).Fits commandSize (s.i + 1)
        · rw [dangling_of_fits hi hfits] at hdangling
          refine (w.round hs hfits).mono (fun _ t ht => ?_) (fun _ _ _ => trivial)
            (fun _ _ => trivial)
          have hi' : t.i = s.i + 1 + (ops (word s.i)).count := by rw [ht.i_eq]; omega
          by_cases hroom : s.i + 1 + (ops (word s.i)).count ≤ commandSize
          · rw [if_pos hroom, ← hi'] at hdangling
            exact ih t (w.keep s t _ hs ht) hdangling
          · cases fuel with
            | zero => exact trivial
            | succ fuel =>
                rw [post_descriptorLoop]
                exact ⟨fun h => absurd h (by omega), fun _ => by omega⟩
        · rw [dangling_of_not_fits hi hfits] at hdangling
          exact absurd hdangling (by simp)
      · rw [dangling, if_neg hi] at hdangling
        exact absurd hdangling (by simp)

end Loop

/-! ## The three translations -/

/-- The words from the cursor on are those of `word`. -/
def ReadsAhead (word : Nat → Nat) (s : Translation α) : Prop := ∀ k, s.i ≤ k → s.cmdBuf k = word k

theorem ReadsAhead.keep {word : Nat → Nat} (hs : ReadsAhead word s) (h : Advanced s n n t) :
    ReadsAhead word t := by
  have hi := h.i_eq
  intro k hk
  rw [h.ahead k (by omega), hs k (by omega)]

theorem walks_translate (r : Request α) (commandSize : Nat) (word : Nat → Nat) :
    Walks operands word commandSize fetchDescriptor (translateDescriptor r commandSize)
      (ReadsAhead word) where
  fetch s hs := by
    rw [fetchDescriptor, post_bind, post_get, post_bind]
    refine (post_readWord s.i).mono ?_ (fun _ _ h => h) ?_
    · rintro d t ⟨rfl, rfl, -⟩
      exact ⟨hs s.i le_rfl, rfl, fun _ _ => rfl, fun _ _ => rfl, within_touching s⟩
    · rintro f ⟨rfl, -⟩
      exact ⟨by simp, within_touching s⟩
  body d := takes_translateDescriptor r commandSize d
  keep _ _ _ hs h := hs.keep h

theorem walks_populate (r : Incoming α) (commandSize : Nat) :
    Walks operands r.srcCmdBuf commandSize (copyDescriptor r) (populateDescriptor r commandSize)
      (fun _ => True) where
  fetch s _ := by
    rw [copyDescriptor, post_bind, post_get, post_bind]
    exact (uses_pushWord _ s).mono (fun _ _ h => ⟨rfl, h⟩) (fun _ _ h => h) (fun _ h => h)
  body d := takes_populateDescriptor r commandSize d
  keep _ _ _ _ _ := trivial

theorem walks_write (dstProcess commandSize : Nat) (word : Nat → Nat) :
    Walks replyOperands word commandSize (replyDescriptor : Trans α Nat)
      (writeDescriptor dstProcess commandSize) (ReadsAhead word) where
  fetch s hs := by
    rw [replyDescriptor, post_bind, post_get, post_bind]
    refine (post_readWord s.i).mono ?_ (fun _ _ h => h) ?_
    · rintro d t ⟨rfl, rfl, -⟩
      rw [post_bind]
      have hread := advanced_touching s
      refine (uses_replyWord _ _).mono (fun _ u hu => ?_)
        (fun _ _ h => hread.trans_within h le_rfl (by omega))
        (fun _ h => ⟨h.1, hread.trans_within h.2 le_rfl (by omega)⟩)
      exact ⟨hs s.i le_rfl, hu.i_eq, hu.behind, hu.ahead, hread.trans_within hu.within le_rfl (by omega)⟩
    · rintro f ⟨rfl, -⟩
      exact ⟨by simp, within_touching s⟩
  body d := takes_writeDescriptor dstProcess commandSize d
  keep _ _ _ hs h := hs.keep h

/-- No word behind the command was used, and a call that succeeded has consumed the command. -/
def Inside (commandSize : Nat) (x : Trans α PUnit) (s : Translation α) : Prop :=
  x.Post s (fun _ t => (∀ k ∈ t.touched, k < commandSize) ∧ t.i = commandSize)
    (fun _ t => ∀ k ∈ t.touched, k < commandSize)
    (fun f => f.1 ≠ .endlessLoop ∧ ∀ k ∈ f.2, k < commandSize)

/-- A command, given by its header and its words, has a dangling descriptor. -/
def DanglingIn (ops : Nat → Operands) (header : Nat) (word : Nat → Nat) : Prop :=
  dangling ops word (commandSize header) (commandBufferLength + 1) (untranslatedSize header) = true

instance (ops : Nat → Operands) (header : Nat) (word : Nat → Nat) :
    Decidable (DanglingIn ops header word) :=
  inferInstanceAs (Decidable (_ = true))

/-- A translation at its start: no word was used yet. -/
def Translation.start (s : Translation α) : Translation α := { s with touched := [] }

/-- The command in the memory of the source. -/
def sourceHeader (r : Request α) (s : Translation α) : Nat :=
  (wordsOf ((s.memory.readBlock (pageTable s r.src) r.srcAddress 4).getD [])).headD 0

def sourceWords (r : Request α) (s : Translation α) : Nat → Nat :=
  loadWords (wordsOf ((s.memory.readBlock (pageTable s r.src) r.srcAddress
    (commandSize (sourceHeader r s) * 4)).getD [])) s.cmdBuf

theorem untranslatedSize_le (header : Nat) : untranslatedSize header ≤ commandSize header :=
  Nat.le_add_right ..

theorem untranslatedSize_pos (header : Nat) : 0 < untranslatedSize header := by
  unfold untranslatedSize
  omega

theorem Within.lt {touched : List Nat} {commandSize : Nat}
    (h : Within s (commandSize - s.i) touched) (hs : ∀ k ∈ s.touched, k < commandSize) :
    ∀ k ∈ touched, k < commandSize := by
  intro k hk
  rcases h k hk with hold | hnew
  · exact hs k hold
  · omega

section Whole

variable {ops : Nat → Operands} {word : Nat → Nat} {header : Nat} {fetch : Trans α Nat}
  {body : Nat → Trans α PUnit} {Reads : Translation α → Prop}

theorem Walks.inside_command (w : Walks ops word (commandSize header) fetch body Reads)
    (hs : Reads s) (hi : s.i = untranslatedSize header)
    (hsize : commandSize header ≤ commandBufferLength)
    (htouched : ∀ k ∈ s.touched, k < commandSize header) (h : ¬ DanglingIn ops header word) :
    Inside (commandSize header)
      (descriptorLoop (commandSize header) fetch body (commandBufferLength + 1)) s := by
  have hle := untranslatedSize_le header
  have hpos := untranslatedSize_pos header
  have hloop := w.inside (commandBufferLength + 1) s hs (by omega) (by omega)
    (by rw [hi]; simpa [DanglingIn] using h)
  exact hloop.mono (fun _ _ ht => ⟨ht.2.lt htouched, ht.1⟩) (fun _ _ ht => ht.lt htouched)
    (fun _ hf => ⟨hf.1, hf.2.lt htouched⟩)

theorem Walks.outside_command (w : Walks ops word (commandSize header) fetch body Reads)
    (hs : Reads s) (hi : s.i = untranslatedSize header) (h : DanglingIn ops header word) :
    (descriptorLoop (commandSize header) fetch body (commandBufferLength + 1)).Post s
      (fun _ t => commandSize header < t.i) (fun _ _ => True) (fun _ => True) := by
  refine w.outside (commandBufferLength + 1) s hs ?_
  rw [hi]
  exact h

end Whole

theorem inside_iff {x : Trans α PUnit} {commandSize : Nat} {d : Prop}
    (hin : ¬ d → Inside commandSize x s)
    (hout : d → x.Post s (fun _ t => commandSize < t.i) (fun _ _ => True) (fun _ => True))
    (hx : x s = .value ⟨⟩ t) : Inside commandSize x s ↔ ¬ d := by
  refine ⟨fun h hd => ?_, hin⟩
  have hend : t.i = commandSize := (h.value hx).2
  have hbehind : commandSize < t.i := (hout hd).value hx
  omega

/-! ### Between two processes -/

section Rules

variable {E : ResultCode → Translation α → Prop} {F : TransFault × List Nat → Prop}

theorem post_readBlock {Q : List UInt8 → Translation α → Prop} (pid addr size : Nat) :
    (readBlock pid addr size).Post s Q E F ↔
      (∀ data, s.memory.readBlock (pageTable s pid) addr size = some data → Q data s) ∧
      (s.memory.readBlock (pageTable s pid) addr size = none →
        F (.kernel .outOfBounds, s.touched)) := by
  rw [readBlock, post_bind, post_get]
  cases s.memory.readBlock (pageTable s pid) addr size <;> simp

theorem post_writeBlock {Q : PUnit → Translation α → Prop} (pid addr : Nat) (data : List UInt8) :
    (writeBlock pid addr data).Post s Q E F ↔
      (∀ memory, s.memory.writeBlock (pageTable s pid) addr data = some memory →
        Q ⟨⟩ { s with memory }) ∧
      (s.memory.writeBlock (pageTable s pid) addr data = none →
        F (.kernel .outOfBounds, s.touched)) := by
  rw [writeBlock, post_bind, post_get]
  cases s.memory.writeBlock (pageTable s pid) addr data <;> simp

end Rules

/-- The state in which the loop over the descriptors starts. -/
def loaded (r : Request α) (s : Translation α) : Translation α :=
  { s with
    cmdBuf := sourceWords r s
    touched := List.range (commandSize (sourceHeader r s))
    i := untranslatedSize (sourceHeader r s) }

theorem post_translateCommandBuffer (r : Request α) (s : Translation α)
    {Q : Translation α → Prop} {E : ResultCode → Translation α → Prop}
    {F : TransFault × List Nat → Prop} (L : Translation α → Prop)
    (hearly : ∀ f, F (.kernel f, []))
    (hloop : commandSize (sourceHeader r s) ≤ commandBufferLength →
      (translateLoop r (commandSize (sourceHeader r s))).Post (loaded r s) (fun _ t => L t) E F)
    (hlate : ∀ t, L t → ∀ touched,
      touched = List.range (commandSize (sourceHeader r s)) ++ t.touched →
      (∀ memory, Q { t with touched, memory }) ∧ F (.kernel .outOfBounds, touched)) :
    (translateCommandBuffer r).Post s.start (fun _ t => Q t) E F := by
  rw [translateCommandBuffer, post_bind, post_readBlock]
  refine ⟨fun bytes hbytes => ?_, fun _ => hearly _⟩
  have hheader : (wordsOf bytes).headD 0 = sourceHeader r s := by
    have hread : s.memory.readBlock (pageTable s r.src) r.srcAddress 4 = some bytes := hbytes
    simp [sourceHeader, hread]
  rw [post_bind, post_assert]
  refine ⟨fun hsize => ?_, fun _ => hearly _⟩
  rw [hheader] at hsize
  simp only [hheader]
  rw [post_bind, post_readBlock]
  refine ⟨fun data hdata => ?_, fun _ => hearly _⟩
  have hwords : loadWords (wordsOf data) s.cmdBuf = sourceWords r s := by
    have hread : s.memory.readBlock (pageTable s r.src) r.srcAddress
      (commandSize (sourceHeader r s) * 4) = some data := hdata
    simp [sourceWords, hread]
  have hstart : { s.start with
      cmdBuf := loadWords (wordsOf data) s.start.cmdBuf
      touched := List.range (commandSize (sourceHeader r s)) ++ s.start.touched
      i := untranslatedSize (sourceHeader r s) } = loaded r s := by
    simp [Translation.start, loaded, hwords]
  rw [post_bind, post_modify, hstart, post_bind]
  refine (hloop hsize).mono (fun _ t ht => ?_) (fun _ _ h => h) (fun _ h => h)
  rw [post_bind, post_get, post_bind, post_modify, post_writeBlock]
  have hend := hlate t ht _ rfl
  exact ⟨fun memory _ => hend.1 memory, fun _ => hend.2⟩

theorem lt_of_mem_range_append {touched : List Nat} {commandSize : Nat}
    (h : ∀ k ∈ touched, k < commandSize) :
    ∀ k ∈ List.range commandSize ++ touched, k < commandSize := by
  intro k hk
  rcases List.mem_append.mp hk with hk | hk
  · exact List.mem_range.mp hk
  · exact h k hk

theorem translateCommandBuffer_inside (r : Request α) (s : Translation α)
    (h : ¬ DanglingIn operands (sourceHeader r s) (sourceWords r s)) :
    Inside (commandSize (sourceHeader r s)) (translateCommandBuffer r) s.start := by
  refine post_translateCommandBuffer r s
    (fun t => (∀ k ∈ t.touched, k < commandSize (sourceHeader r s)) ∧
      t.i = commandSize (sourceHeader r s))
    (fun f => ⟨by simp, by simp⟩) (fun hsize => ?_) ?_
  · exact (walks_translate r _ _).inside_command (fun _ _ => rfl) rfl hsize
      (fun k hk => List.mem_range.mp hk) h
  · rintro t ⟨ht, hi⟩ touched rfl
    exact ⟨fun _ => ⟨lt_of_mem_range_append ht, hi⟩, by simp, lt_of_mem_range_append ht⟩

theorem translateCommandBuffer_outside (r : Request α) (s : Translation α)
    (h : DanglingIn operands (sourceHeader r s) (sourceWords r s)) :
    (translateCommandBuffer r).Post s.start (fun _ t => commandSize (sourceHeader r s) < t.i)
      (fun _ _ => True) (fun _ => True) := by
  refine post_translateCommandBuffer r s (fun t => commandSize (sourceHeader r s) < t.i)
    (fun _ => trivial) (fun _ => ?_) (fun t ht _ _ => ⟨fun _ => ht, trivial⟩)
  exact (walks_translate r _ _).outside_command (fun _ _ => rfl) rfl h

/-! ### HLE services -/

theorem post_populate (r : Incoming α) (s : Translation α) {Q : Translation α → Prop}
    {E : ResultCode → Translation α → Prop} {F : TransFault × List Nat → Prop}
    (hearly : ∀ f, F (.kernel f, []))
    (hloop : commandSize (r.srcCmdBuf 0) ≤ commandBufferLength → ∀ t : Translation α,
      t.i = untranslatedSize (r.srcCmdBuf 0) →
      t.touched = List.range (untranslatedSize (r.srcCmdBuf 0)) →
      (populateLoop r (commandSize (r.srcCmdBuf 0))).Post t (fun _ t => Q t) E F) :
    (populateFromIncomingCommandBuffer r).Post s.start (fun _ t => Q t) E F := by
  rw [populateFromIncomingCommandBuffer, post_bind, post_assert]
  refine ⟨fun hsize => ?_, fun _ => hearly _⟩
  rw [post_bind, post_modify]
  exact hloop hsize _ rfl (by simp [Translation.start])

theorem populate_inside (r : Incoming α) (s : Translation α)
    (h : ¬ DanglingIn operands (r.srcCmdBuf 0) r.srcCmdBuf) :
    Inside (commandSize (r.srcCmdBuf 0)) (populateFromIncomingCommandBuffer r) s.start := by
  refine post_populate r s (fun f => ⟨by simp, by simp⟩) (fun hsize t hi ht => ?_)
  refine (walks_populate r _).inside_command trivial hi hsize (fun k hk => ?_) h
  rw [ht, List.mem_range] at hk
  exact hk.trans_le (untranslatedSize_le _)

theorem populate_outside (r : Incoming α) (s : Translation α)
    (h : DanglingIn operands (r.srcCmdBuf 0) r.srcCmdBuf) :
    (populateFromIncomingCommandBuffer r).Post s.start
      (fun _ t => commandSize (r.srcCmdBuf 0) < t.i) (fun _ _ => True) (fun _ => True) :=
  post_populate r s (fun _ => trivial) fun _ _ hi _ =>
    (walks_populate r _).outside_command trivial hi h

theorem post_writeToOutgoing (dstProcess : Nat) (s : Translation α) {Q : Translation α → Prop}
    {E : ResultCode → Translation α → Prop} {F : TransFault × List Nat → Prop}
    (hearly : F (.kernel .assertFailed, [0]))
    (hloop : commandSize (s.cmdBuf 0) ≤ commandBufferLength → ∀ t : Translation α,
      t.cmdBuf = s.cmdBuf → t.i = untranslatedSize (s.cmdBuf 0) →
      t.touched = List.range (untranslatedSize (s.cmdBuf 0)) ++ [0] →
      (writeLoop dstProcess (commandSize (s.cmdBuf 0))).Post t (fun _ t => Q t) E F) :
    (writeToOutgoingCommandBuffer dstProcess).Post s.start (fun _ t => Q t) E F := by
  rw [writeToOutgoingCommandBuffer, post_bind]
  refine (post_readWord 0).mono ?_ (fun _ _ h => h) ?_
  · rintro header t ⟨rfl, rfl, -⟩
    rw [post_bind, post_assert]
    refine ⟨fun hsize => ?_, fun _ => hearly⟩
    rw [post_bind, post_modify, post_bind, post_get, post_bind, onContext,
      post_modify]
    exact hloop hsize _ rfl rfl rfl
  · rintro f ⟨-, hf⟩
    simp [commandBufferLength] at hf

theorem writeToOutgoing_inside (dstProcess : Nat) (s : Translation α)
    (h : ¬ DanglingIn replyOperands (s.cmdBuf 0) s.cmdBuf) :
    Inside (commandSize (s.cmdBuf 0)) (writeToOutgoingCommandBuffer dstProcess) s.start := by
  have hpos := (untranslatedSize_pos (s.cmdBuf 0)).trans_le (untranslatedSize_le _)
  refine post_writeToOutgoing dstProcess s ⟨by simp, by simpa using hpos⟩
    (fun hsize t hcmd hi ht => ?_)
  refine (walks_write dstProcess _ s.cmdBuf).inside_command (fun k _ => by rw [hcmd]) hi hsize
    (fun k hk => ?_) h
  rw [ht, List.mem_append, List.mem_range, List.mem_singleton] at hk
  rcases hk with hk | rfl
  · exact hk.trans_le (untranslatedSize_le _)
  · exact hpos

theorem writeToOutgoing_outside (dstProcess : Nat) (s : Translation α)
    (h : DanglingIn replyOperands (s.cmdBuf 0) s.cmdBuf) :
    (writeToOutgoingCommandBuffer dstProcess).Post s.start
      (fun _ t => commandSize (s.cmdBuf 0) < t.i) (fun _ _ => True) (fun _ => True) :=
  post_writeToOutgoing dstProcess s trivial fun _ _ hcmd hi _ =>
    (walks_write dstProcess _ s.cmdBuf).outside_command (fun k _ => by rw [hcmd]) hi h

/-! ### All three -/

/-- A translation stays in its command if no descriptor dangles, and one that succeeds stays in
it only then. -/
theorem translation_inside_iff :
    (∀ (r : Request α) (s : Translation α),
      (¬ DanglingIn operands (sourceHeader r s) (sourceWords r s) →
        Inside (commandSize (sourceHeader r s)) (translateCommandBuffer r) s.start) ∧
      ∀ t, translateCommandBuffer r s.start = .value ⟨⟩ t →
        (Inside (commandSize (sourceHeader r s)) (translateCommandBuffer r) s.start ↔
          ¬ DanglingIn operands (sourceHeader r s) (sourceWords r s))) ∧
    (∀ (r : Incoming α) (s : Translation α),
      (¬ DanglingIn operands (r.srcCmdBuf 0) r.srcCmdBuf →
        Inside (commandSize (r.srcCmdBuf 0)) (populateFromIncomingCommandBuffer r) s.start) ∧
      ∀ t, populateFromIncomingCommandBuffer r s.start = .value ⟨⟩ t →
        (Inside (commandSize (r.srcCmdBuf 0)) (populateFromIncomingCommandBuffer r) s.start ↔
          ¬ DanglingIn operands (r.srcCmdBuf 0) r.srcCmdBuf)) ∧
    (∀ (dstProcess : Nat) (s : Translation α),
      (¬ DanglingIn replyOperands (s.cmdBuf 0) s.cmdBuf →
        Inside (commandSize (s.cmdBuf 0)) (writeToOutgoingCommandBuffer dstProcess) s.start) ∧
      ∀ t, writeToOutgoingCommandBuffer dstProcess s.start = .value ⟨⟩ t →
        (Inside (commandSize (s.cmdBuf 0)) (writeToOutgoingCommandBuffer dstProcess) s.start ↔
          ¬ DanglingIn replyOperands (s.cmdBuf 0) s.cmdBuf)) := by
  refine ⟨fun r s => ?_, fun r s => ?_, fun dstProcess s => ?_⟩
  · exact ⟨translateCommandBuffer_inside r s, fun _ => inside_iff
      (translateCommandBuffer_inside r s) (translateCommandBuffer_outside r s)⟩
  · exact ⟨populate_inside r s, fun _ => inside_iff (populate_inside r s) (populate_outside r s)⟩
  · exact ⟨writeToOutgoing_inside dstProcess s, fun _ => inside_iff
      (writeToOutgoing_inside dstProcess s) (writeToOutgoing_outside dstProcess s)⟩

/-- An address space in which every page is the first page of host memory. -/
def exampleSpace : VMManager where
  vmaMap := []
  pageTable _ := ⟨.memory, { backingMem := some ⟨0, pageSize⟩, offset := 0 }⟩
  cacheMarker _ := false
  isLocked := false

/-- Two processes that share one page, which holds the words of a command. -/
def exampleTranslation (words : List Nat) : Translation Nat where
  processes pid := ⟨HandleTable.new, exampleSpace, pid, pid⟩
  memory := ⟨fun k => ((words.flatMap bytesOf)[k]?).getD 0, ⟨0, 0⟩, ⟨0, 0⟩, 0⟩
  allocator _ := 0
  allocations := 0
  mappedBufferContext := []
  cmdBuf _ := 0
  i := 0
  touched := []
  context := ⟨[], fun _ => [], [], fun _ => 0⟩

def exampleRequest : Request Nat := ⟨1, 2, 0, 0, 0x800, false⟩

/-- A header and a descriptor for the process id as its last word. -/
def danglingCommand : Translation Nat := exampleTranslation [1, 0x20]

theorem callingPid_behind_command :
    commandSize (sourceHeader exampleRequest danglingCommand) = 2 ∧
      (∃ t, translateCommandBuffer exampleRequest danglingCommand.start = .value ⟨⟩ t ∧
        2 ∈ t.touched ∧ t.i = 3) ∧
      ¬ Inside 2 (translateCommandBuffer exampleRequest) danglingCommand.start := by
  have hrun : translateCommandBuffer exampleRequest danglingCommand.start =
      .value ⟨⟩ ((translateCommandBuffer exampleRequest).after danglingCommand.start) :=
    Exec.value_after (by decide)
  have hend : ((translateCommandBuffer exampleRequest).after danglingCommand.start).i = 3 := by
    decide
  refine ⟨by decide, ⟨_, hrun, by decide, hend⟩, fun hinside => ?_⟩
  have hend' := (hinside.value hrun).2
  omega

end Cytrus.Kernel.Ipc
