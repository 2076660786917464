import KeyedStore.Focus

/-!
# Taking steps apart

A step that is put together from others succeeds exactly if each of them does, one after the other;
and a step that fails does so in the first of them that fails. A property that each of them keeps,
whether it succeeds or fails, is kept by all together.
-/

namespace KeyedStore

variable {ε σ τ α β : Type} {m : EStateM ε σ α} {f : α → EStateM ε σ β} {s s' : σ} {a a' : α} {b : β}
  {e : ε}

/-- The state that a step leaves, whether it succeeds or fails. -/
def stateAfter (m : EStateM ε σ α) (s : σ) : σ :=
  match m s with
  | .ok _ s' => s'
  | .error _ s' => s'

theorem stateAfter_of_ok (h : m s = .ok a s') : stateAfter m s = s' := by
  rw [stateAfter, h]

theorem stateAfter_of_error (h : m s = .error e s') : stateAfter m s = s' := by
  rw [stateAfter, h]

theorem bind_of_ok (h : m s = .ok a s') : (m >>= f) s = f a s' := by
  change EStateM.bind m f s = _
  rw [EStateM.bind, h]

theorem bind_of_error (h : m s = .error e s') : (m >>= f) s = .error e s' := by
  change EStateM.bind m f s = _
  rw [EStateM.bind, h]

theorem stateAfter_bind_of_ok (h : m s = .ok a s') : stateAfter (m >>= f) s = stateAfter (f a) s' := by
  unfold stateAfter
  rw [bind_of_ok h]

theorem stateAfter_bind_of_error (h : m s = .error e s') : stateAfter (m >>= f) s = s' :=
  stateAfter_of_error (bind_of_error h)

/-- What is made of the result of a step has no say in the state that it leaves. -/
theorem stateAfter_bind_pure (m : EStateM ε σ α) (g : α → β) (s : σ) :
    stateAfter (do return g (← m)) s = stateAfter m s := by
  cases h : m s with
  | ok a s' =>
    rw [stateAfter_of_ok h, stateAfter_bind_of_ok h]
    rfl
  | error e s' => rw [stateAfter_of_error h, stateAfter_bind_of_error h]

theorem get_bind (f : σ → EStateM ε σ β) (s : σ) : ((get : EStateM ε σ σ) >>= f) s = f s s := rfl

theorem focus_of_ok {get : σ → τ} {set : τ → σ → σ} {m : EStateM ε τ α} {t : τ}
    (h : m (get s) = .ok a t) : focus get set m s = .ok a (set t s) := by
  rw [focus, h]

theorem focus_of_error {get : σ → τ} {set : τ → σ → σ} {m : EStateM ε τ α} {t : τ}
    (h : m (get s) = .error e t) : focus get set m s = .error e (set t s) := by
  rw [focus, h]

theorem liftResult_of_ok {r : Except ε α} (h : r = .ok a) (s : σ) : liftResult r s = .ok a s := by
  rw [h]
  rfl

theorem liftResult_of_error {r : Except ε α} (h : r = .error e) (s : σ) :
    liftResult r s = .error e s := by
  rw [h]
  rfl

theorem bind_eq_ok : (m >>= f) s = .ok b s' ↔ ∃ a s₁, m s = .ok a s₁ ∧ f a s₁ = .ok b s' := by
  cases hm : m s with
  | ok a s₁ =>
    rw [bind_of_ok hm]
    simp only [EStateM.Result.ok.injEq]
    exact ⟨fun h => ⟨a, s₁, ⟨rfl, rfl⟩, h⟩, by rintro ⟨_, _, ⟨rfl, rfl⟩, h⟩; exact h⟩
  | error e s₁ =>
    rw [bind_of_error hm]
    simp

theorem mapM_cons_apply (f : α → StateM σ β) (a : α) (as : List α) (s : σ) :
    (a :: as).mapM f s =
      ((f a s).1 :: (as.mapM f (f a s).2).1, (as.mapM f (f a s).2).2) := by
  rw [List.mapM_cons]
  rfl

theorem mapM_append_apply (f : α → StateM σ β) (as bs : List α) (s : σ) :
    (as ++ bs).mapM f s =
      ((as.mapM f s).1 ++ (bs.mapM f (as.mapM f s).2).1, (bs.mapM f (as.mapM f s).2).2) := by
  rw [List.mapM_append]
  rfl

theorem mapM_concat_apply (f : α → StateM σ β) (as : List α) (a : α) (s : σ) :
    (as ++ [a]).mapM f s =
      ((as.mapM f s).1 ++ [(f a (as.mapM f s).2).1], (f a (as.mapM f s).2).2) := by
  rw [mapM_append_apply, mapM_cons_apply]
  rfl

theorem pure_eq_ok : (pure a : EStateM ε σ α) s = .ok a' s' ↔ a = a' ∧ s = s' := by
  change EStateM.Result.ok a s = _ ↔ _
  rw [EStateM.Result.ok.injEq]

theorem throw_ne_ok : (throw e : EStateM ε σ α) s ≠ .ok a s' := by
  change EStateM.Result.error e s ≠ _
  simp

theorem liftResult_eq_ok {r : Except ε α} : liftResult r s = .ok a s' ↔ r = .ok a ∧ s = s' := by
  cases r with
  | ok b =>
    rw [liftResult, pure_eq_ok, Except.ok.injEq]
  | error e => simpa [liftResult] using throw_ne_ok

theorem focus_eq_ok {get : σ → τ} {set : τ → σ → σ} {m : EStateM ε τ α} :
    focus get set m s = .ok a s' ↔ ∃ t, m (get s) = .ok a t ∧ set t s = s' := by
  rw [focus]
  cases m (get s) with
  | ok b t =>
    simp only [EStateM.Result.ok.injEq]
    exact ⟨fun h => ⟨t, ⟨h.1, rfl⟩, h.2⟩, by rintro ⟨_, ⟨rfl, rfl⟩, h⟩; exact ⟨rfl, h⟩⟩
  | error e t => simp

theorem outcome_eq_ok : outcome m s = .ok (.ok a) s' ↔ m s = .ok a s' := by
  rw [outcome]
  cases m s with
  | ok b t =>
    simp only [EStateM.Result.ok.injEq, Except.ok.injEq]
  | error e t => simp

theorem outcome_eq_error : outcome m s = .ok (.error e) s' ↔ m s = .error e s' := by
  rw [outcome]
  cases m s with
  | ok b t => simp
  | error e' t =>
    simp only [EStateM.Result.ok.injEq, Except.error.injEq, EStateM.Result.error.injEq]

theorem outcome_apply (m : EStateM ε σ α) (s : σ) :
    ∃ result, outcome m s = .ok result (stateAfter m s) := by
  rw [outcome, stateAfter]
  cases m s with
  | ok a t => exact ⟨.ok a, rfl⟩
  | error e t => exact ⟨.error e, rfl⟩

/-! ### Properties that steps keep -/

/-- A step keeps a property of the state, whether it succeeds or fails, and what it gives has another. -/
def Preserves (P : σ → Prop) (m : EStateM ε σ α) (Q : α → Prop) : Prop :=
  ∀ s, P s → P (stateAfter m s) ∧ ∀ a s', m s = .ok a s' → Q a

namespace Preserves

variable {P : σ → Prop} {Q : α → Prop} {R : β → Prop}

theorem ok (hm : Preserves P m Q) (hs : P s) (h : m s = .ok a s') : P s' ∧ Q a := by
  obtain ⟨hstate, hvalue⟩ := hm s hs
  rw [stateAfter_of_ok h] at hstate
  exact ⟨hstate, hvalue a s' h⟩

theorem error (hm : Preserves P m Q) (hs : P s) (h : m s = .error e s') : P s' := by
  have hstate := (hm s hs).1
  rwa [stateAfter_of_error h] at hstate

theorem of_outcomes (hok : ∀ s a s', P s → m s = .ok a s' → P s' ∧ Q a)
    (herror : ∀ s e s', P s → m s = .error e s' → P s') : Preserves P m Q := by
  intro s hs
  refine ⟨?_, fun a s' h => (hok s a s' hs h).2⟩
  cases h : m s with
  | ok a s' =>
    rw [stateAfter_of_ok h]
    exact (hok s a s' hs h).1
  | error e s' =>
    rw [stateAfter_of_error h]
    exact herror s e s' hs h

theorem pure (ha : Q a) : Preserves P (Pure.pure a : EStateM ε σ α) Q := by
  intro s hs
  refine ⟨hs, ?_⟩
  intro a' s' h
  obtain ⟨rfl, -⟩ := pure_eq_ok.1 h
  exact ha

theorem throw (e : ε) : Preserves P (throw e : EStateM ε σ α) Q :=
  fun _ hs => ⟨hs, fun _ _ h => absurd h throw_ne_ok⟩

theorem get : Preserves P (MonadState.get : EStateM ε σ σ) P := by
  intro s hs
  refine ⟨hs, ?_⟩
  intro a s' h
  cases h
  exact hs

theorem modify {g : σ → σ} (h : ∀ s, P s → P (g s)) :
    Preserves P (modify g : EStateM ε σ Unit) fun _ => True :=
  fun s hs => ⟨h s hs, fun _ _ _ => trivial⟩

theorem liftResult {r : Except ε α} (h : ∀ a, r = .ok a → Q a) :
    Preserves P (KeyedStore.liftResult r : EStateM ε σ α) Q := by
  cases r with
  | ok a => exact pure (h a rfl)
  | error e => exact throw e

theorem bind (hm : Preserves P m Q) (hf : ∀ a, Q a → Preserves P (f a) R) : Preserves P (m >>= f) R := by
  intro s hs
  cases h : m s with
  | ok a s₁ =>
    obtain ⟨hs₁, ha⟩ := hm.ok hs h
    rw [stateAfter, bind_of_ok h]
    exact hf a ha s₁ hs₁
  | error e s₁ =>
    rw [stateAfter, bind_of_error h]
    exact ⟨hm.error hs h, fun _ _ h => nomatch h⟩

/-- A step on a part of the state keeps what it keeps of the part, whatever the rest is. -/
theorem focus {get : σ → τ} {set : τ → σ → σ} {m : EStateM ε τ α} (hget : ∀ s, set (get s) s = s)
    (hm : ∀ s, Preserves (fun t => P (set t s)) m Q) : Preserves P (KeyedStore.focus get set m) Q := by
  intro s hs
  rw [← hget s] at hs
  cases h : m (get s) with
  | ok a t =>
    obtain ⟨ht, ha⟩ := (hm s).ok hs h
    rw [stateAfter, focus_of_ok h]
    refine ⟨ht, ?_⟩
    rintro _ _ ⟨⟩
    exact ha
  | error e t =>
    rw [stateAfter, focus_of_error h]
    exact ⟨(hm s).error hs h, fun _ _ h => nomatch h⟩

end Preserves

end KeyedStore
