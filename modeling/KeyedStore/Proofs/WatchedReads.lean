import KeyedStore.Proofs.Steps
import KeyedStore.Store

/-!
# Watched reads

A backend can be watched: it then records the reads that it serves, with the buffer that it was offered
and its answer to each. A look-up in a store does not notice whether the backend is watched, so what the
record holds are the reads that the look-up makes of any backend.
-/

namespace KeyedStore

/-- A read that a backend served: the buffer that it was offered, and its answer. -/
structure Served where
  key : Bytes
  offered : Bytes
  reading : Reading

/-- The buffer as it was given back. -/
def Served.filled (r : Served) : Item := { buffer := Bytes.overlay r.reading.written r.offered }

theorem Served.capacity_filled (r : Served) : r.filled.capacity = r.offered.length :=
  Bytes.length_overlay _ _

/-- A backend with a record of the reads that it served, the latest last. -/
structure Watched (β : Type) where
  backend : β
  reads : List Served := []

namespace Watched

variable {α β : Type}

def onBackend (m : EStateM Error β α) : EStateM Error (Watched β) α :=
  focus Watched.backend (fun backend w => { w with backend }) m

variable [Backend β]

instance : Backend (Watched β) where
  read key buffer w :=
    let (reading, backend) := Backend.read key buffer w.backend
    (reading, { backend, reads := w.reads ++ [{ key, offered := buffer, reading }] })
  write key value := onBackend (Backend.write key value)
  remove key := onBackend (Backend.remove key)
  contains key := onBackend (Backend.contains key)

end Watched

namespace Store

variable {α γ β : Type} {m : EStateM Error (Store (Watched β)) α} {m' : EStateM Error (Store β) α}

/-- The store with its backend watched, after it served some reads. -/
def watched (reads : List Served) (s : Store β) : Store (Watched β) :=
  { pool := s.pool, backend := { backend := s.backend, reads } }

/-- What a step gives, with the backend watched that it leaves. -/
def watchedResult (reads : List Served) :
    EStateM.Result Error (Store β) α → EStateM.Result Error (Store (Watched β)) α
  | .ok a s => .ok a (s.watched reads)
  | .error e s => .error e (s.watched reads)

/-- A step over a watched backend that does what another does over the bare one. -/
def Shadows (m : EStateM Error (Store (Watched β)) α) (m' : EStateM Error (Store β) α) : Prop :=
  ∀ s reads, ∃ more, m (s.watched reads) = watchedResult (reads ++ more) (m' s)

namespace Shadows

/-- A step that reads nothing. -/
theorem of_eq (h : ∀ s reads, m (s.watched reads) = watchedResult reads (m' s)) : Shadows m m' := by
  intro s reads
  refine ⟨[], ?_⟩
  rw [List.append_nil]
  exact h s reads

theorem pure (a : α) :
    Shadows (Pure.pure a : EStateM Error (Store (Watched β)) α) (Pure.pure a) :=
  of_eq fun _ _ => rfl

theorem throw (e : Error) :
    Shadows (throw e : EStateM Error (Store (Watched β)) α) (throw e) :=
  of_eq fun _ _ => rfl

theorem bind {f : α → EStateM Error (Store (Watched β)) γ} {f' : α → EStateM Error (Store β) γ}
    (hm : Shadows m m') (hf : ∀ a, Shadows (f a) (f' a)) : Shadows (m >>= f) (m' >>= f') := by
  intro s reads
  obtain ⟨more, hmore⟩ := hm s reads
  cases h : m' s with
  | error e s₁ =>
    rw [h] at hmore
    refine ⟨more, ?_⟩
    rw [bind_of_error hmore, bind_of_error h]
    rfl
  | ok a s₁ =>
    rw [h] at hmore
    obtain ⟨later, hlater⟩ := hf a s₁ (reads ++ more)
    refine ⟨more ++ later, ?_⟩
    rw [bind_of_ok hmore, bind_of_ok h, hlater, List.append_assoc]

theorem release (item : Item) :
    Shadows (Store.release item : EStateM Error (Store (Watched β)) Unit) (Store.release item) :=
  of_eq fun _ _ => rfl

theorem onPool (m : EStateM Error Pool α) :
    Shadows (Store.onPool m : EStateM Error (Store (Watched β)) α) (Store.onPool m) := by
  apply of_eq
  intro s reads
  cases h : m s.pool with
  | ok a pool =>
    have hbare : Store.onPool m s = .ok a { s with pool } := focus_of_ok h
    have hwatched : Store.onPool m (s.watched reads) = .ok a { s.watched reads with pool } :=
      focus_of_ok h
    rw [hwatched, hbare]
    rfl
  | error e pool =>
    have hbare : Store.onPool m s = .error e { s with pool } := focus_of_error h
    have hwatched : Store.onPool m (s.watched reads) = .error e { s.watched reads with pool } :=
      focus_of_error h
    rw [hwatched, hbare]
    rfl

theorem accept (item : Item) (length : Nat) :
    Shadows (Store.accept item length : EStateM Error (Store (Watched β)) Item)
      (Store.accept item length) := by
  rw [Store.accept, Store.accept]
  cases item.layout with
  | error e => exact (release item).bind fun _ => throw e
  | ok layout =>
    by_cases hlength : layout.total = length
    · simp only [if_pos hlength]
      exact pure item
    · simp only [if_neg hlength]
      exact (release item).bind fun _ => throw _

variable [Backend β]

theorem fill (key : Bytes) (item : Item) :
    Shadows (Store.fill key item : EStateM Error (Store (Watched β)) _) (Store.fill key item) := by
  intro s reads
  exact ⟨[{ key, offered := item.buffer, reading := (Backend.read key item.buffer s.backend).1 }], rfl⟩

theorem readInto (key : Bytes) (retries : Nat) (item : Item) :
    Shadows (Store.readInto key retries item : EStateM Error (Store (Watched β)) _)
      (Store.readInto key retries item) := by
  induction retries generalizing item with
  | zero =>
    rw [Store.readInto, Store.readInto]
    refine (fill key item).bind fun filled => ?_
    obtain ⟨filled, _ | _ | _ | _⟩ := filled
    · exact (release filled).bind fun _ => throw _
    · exact (accept filled _).bind fun _ => pure _
    · exact (release filled).bind fun _ => throw _
    · exact (release filled).bind fun _ => pure _
  | succ retries ih =>
    rw [Store.readInto, Store.readInto]
    refine (fill key item).bind fun filled => ?_
    obtain ⟨filled, _ | _ | required | _⟩ := filled
    · exact (release filled).bind fun _ => throw _
    · exact (accept filled _).bind fun _ => pure _
    · refine (release filled).bind fun _ => ?_
      by_cases hsmall : required ≤ filled.capacity
      · simp only [if_pos hsmall]
        exact (throw _).bind fun _ => (onPool _).bind ih
      · simp only [if_neg hsmall]
        exact (pure _).bind fun _ => (onPool _).bind ih
    · exact (release filled).bind fun _ => pure _

end Shadows

/-- A look-up does not notice that the backend is watched. -/
theorem get_watched [Backend β] (key : Bytes) (s : Store β) :
    ∃ reads, get key (s.watched []) = watchedResult reads (get key s) := by
  have hpool : Shadows (onPool (Pool.allocRaw s.pool.bufferSize))
      (onPool (Pool.allocRaw s.pool.bufferSize) : EStateM Error (Store β) Item) := .onPool _
  exact hpool.bind (Shadows.readInto key (maxReads - 1)) s []

end Store

end KeyedStore
