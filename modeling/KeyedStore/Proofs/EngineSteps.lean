import KeyedStore.Proofs.Limits

/-!
# Steps of an engine within its limits

As long as a table number is left and the weight of the data directory is far from the largest
offset, no step of a sound engine fails. Each step revises the values as it should, uses up at most
two numbers and adds at most its operation to the weight.
-/

namespace KeyedStore

open Journal (Entry)
open Bytes

/-- Deleting a key that has no value changes no value. -/
theorem Operation.revise_delete_of_none {key : Bytes} {value : Bytes → Option Bytes}
    (hv : value key = none) (other : Bytes) :
    (Operation.delete key).revise other (value other) = value other := by
  rw [Operation.revise]
  split
  · next he =>
    rw [← show key = other from he, hv]
    rfl
  · rfl

theorem Holding.value_accept (h : Holding) (e : Entry) (key : Bytes) :
    Holding.value { h with log := h.log ++ [e] } key = e.operation.revise key (h.value key) := by
  simp [Holding.value, Holding.operations, Operation.reviseAll]

namespace Engine

variable {d : Disk} {dir : Path} {root : Place} {h : Holding} {tail : Bytes} {e : Engine}
  {op : Operation} {n w : Nat}

theorem accept_of_not_loggable (hop : ¬ op.Loggable) (e : Engine) (d : Disk) :
    accept op (e, d) =
      .error (.entryTooLarge (e.entryOf op).payload.length Journal.maxPayload) (e, d) := by
  have hencode : (e.entryOf op).encode =
      .error (.entryTooLarge (e.entryOf op).payload.length Journal.maxPayload) := by
    rw [Entry.encode, if_pos]
    exact Nat.lt_of_not_le fun hle => hop (Journal.Entry.fits_iff.1 hle)
  rw [entryOf] at hencode ⊢
  simp only [accept, onJournal, Journal.Writer.append, Journal.Writer.log, bind, EStateM.bind, get, getThe,
    MonadStateOf.get, EStateM.get, focus, hencode, liftResult, throw, throwThe, MonadExceptOf.throw,
    EStateM.throw]

theorem Sound.perform (hs : e.Sound d root h) (hop : op.Loggable) (hw : h.Within (n + 1) w)
    (hsmall : w + Holding.weightOf op ≤ bound 8 / 3) :
    ∃ e' d' h', Engine.perform op (e, d) = .ok () (e', d') ∧ e'.Sound d' root h' ∧ e'.dir = e.dir ∧
      (∀ key, h'.value key = op.revise key (h.value key)) ∧
      h'.Within n (w + Holding.weightOf op) := by
  obtain ⟨e₁, d₁, haccept, hs₁, hdir₁⟩ := hs.accept hop
  have hw₁ := hw.accept (show (e.entryOf op).operation.Loggable from hop)
  have hvalue := h.value_accept (e.entryOf op)
  obtain ⟨e₂, d₂, hflush, hs₂, hdir₂⟩ := hs₁.flushIfFull (hw₁.room hsmall)
  have hperform : Engine.perform op (e, d) = .ok () (e₂, d₂) := by
    simp only [Engine.perform, bind, EStateM.bind, haccept, hflush]
  rcases hs₂ with hs₂ | hs₂
  · exact ⟨e₂, d₂, _, hperform, hs₂, hdir₂.trans hdir₁, hvalue,
      hw₁.mono (Nat.le_succ n) (Nat.le_refl _)⟩
  · refine ⟨e₂, d₂, _, hperform, hs₂, hdir₂.trans hdir₁, ?_, hw₁.flushed⟩
    intro key
    rw [Holding.value_flushed, hvalue]
    rfl

/-- Removing a key that has a live value performs its deletion. -/
theorem Sound.delete {key : Bytes} (hs : e.Sound d root h) (hw : h.Within (n + 1) w)
    (hsmall : w + Holding.weightOf (.delete key) ≤ bound 8 / 3) :
    ∃ e' d' h', Engine.delete key (e, d) =
        .ok (if (h.value key).isSome then .removed else .notFound) (e', d') ∧
      e'.Sound d' root h' ∧ e'.dir = e.dir ∧
      (∀ other, h'.value other = (Operation.delete key).revise other (h.value other)) ∧
      h'.Within n (w + Holding.weightOf (.delete key)) := by
  have hcontains := hs.contains key
  cases hv : (h.value key).isSome with
  | true =>
    obtain ⟨e', d', h', hperform, hs', hdir, hvalue, hw'⟩ :=
      hs.perform (hs.kept.fits.delete hv) hw hsmall
    refine ⟨e', d', h', ?_, hs', hdir, hvalue, hw'⟩
    simp only [Engine.delete, bind, EStateM.bind, get, getThe, MonadStateOf.get, EStateM.get, hcontains,
      hv, liftResult, pure, EStateM.pure, Bool.not_true, Bool.false_eq_true, if_false, hperform,
      if_true]
  | false =>
    refine ⟨e, d, h, ?_, hs, rfl, ?_, hw.mono (Nat.le_succ n) (Nat.le_add_right _ _)⟩
    · simp only [Engine.delete, bind, EStateM.bind, get, getThe, MonadStateOf.get, EStateM.get,
        hcontains, hv, liftResult, pure, EStateM.pure, Bool.not_false, if_true, Bool.false_eq_true,
        if_false]
    · have hnone : h.value key = none := by simpa using hv
      exact fun other => (Operation.revise_delete_of_none hnone other).symm

theorem Kept.storable_shelved (hk : Kept d dir root h tail) :
    ∀ l ∈ h.shelved, Table.Storable l.2 := by
  intro l hl
  rw [Holding.shelved] at hl
  split at hl
  · exact (hk.tables.sound l hl).storable
  · rcases List.mem_cons.1 hl with rfl | hl
    · exact storable_replay hk.fits.entries
    · exact (hk.tables.sound l hl).storable

theorem Sound.compact_within (hs : e.Sound d root h) (hw : h.Within (n + 2) w)
    (hsmall : w ≤ bound 8 / 3) :
    ∃ e' d', Engine.compact (e, d) = .ok () (e', d') ∧ e'.Sound d' root h.compacted ∧
      e'.dir = e.dir :=
  hs.compact (hw.room hsmall) (hw.sound_mergedRows hs.kept.storable_shelved hsmall)

end Engine

end KeyedStore
