import KeyedStore.Backend.Memory
import KeyedStore.Proofs.EngineSteps

/-!
# Faithful backends

A backend is faithful if it answers every request as a map from keys to values does. The map in memory
always is, and an engine is as long as its data directory is within its limits.
-/

namespace KeyedStore

open Bytes

/-- The values that keys have. -/
abbrev Values := Bytes → Option Bytes

/-- The values after an operation. -/
def Values.revised (v : Values) (op : Operation) : Values := fun key => op.revise key (v key)

/-- Requests to a backend that holds some values are answered by these values, and change them as they
should. A write is taken by a backend that is ready for it, and leaves room for one write less. -/
structure Backend.Faithful {β : Type} [Backend β] (Holds : Nat → β → Values → Prop)
    (Ready : β → Prop) : Prop where
  mono {n : Nat} {b : β} {v : Values} (hb : Holds (n + 1) b v) : Holds n b v
  read {n : Nat} {b : β} {v : Values} (hb : Holds n b v) (key buffer : Bytes) :
    Backend.read key buffer b = (.ofValue? (v key) buffer, b)
  contains {n : Nat} {b : β} {v : Values} (hb : Holds n b v) (key : Bytes) :
    Backend.contains key b = .ok (v key).isSome b
  write {n : Nat} {b : β} {v : Values} {key value : Bytes} (hb : Holds (n + 1) b v) (hr : Ready b)
    (hop : (Operation.put key value).Loggable) :
    ∃ b', Backend.write key value b = .ok () b' ∧ Holds n b' (v.revised (.put key value))
  remove {n : Nat} {b : β} {v : Values} (hb : Holds (n + 1) b v) (hr : Ready b) (key : Bytes) :
    ∃ b', Backend.remove key b = .ok (if (v key).isSome then .removed else .notFound) b' ∧
      Holds n b' (v.revised (.delete key))

namespace Memory

variable {m : Memory} {v : Values}

def Holds (m : Memory) (v : Values) : Prop := ∀ key, m.values[key]? = v key

theorem Holds.contains_eq (hm : m.Holds v) (key : Bytes) :
    m.values.contains key = (v key).isSome := by
  rw [← hm key, Std.TreeMap.contains_eq_isSome_getElem?]

theorem Holds.insert (hm : m.Holds v) (key value : Bytes) :
    Holds { values := m.values.insert key value } (v.revised (.put key value)) := by
  intro other
  rw [Std.TreeMap.getElem?_insert, Values.revised, Operation.revise, hm other]
  by_cases hk : key = other
  · subst hk
    simp [Operation.key, Operation.version, Version.live?]
  · simp [Operation.key, hk]

theorem Holds.remove (hm : m.Holds v) (key : Bytes) :
    Holds (m.remove key).2 (v.revised (.delete key)) := by
  intro other
  have hcontains := hm.contains_eq key
  rw [Values.revised, Operation.revise, Memory.remove]
  by_cases hk : key = other
  · subst hk
    rw [if_pos (show (Operation.delete key).key = key from rfl)]
    split
    · simp [Operation.version, Version.live?]
    · next habsent =>
      rw [hcontains, Option.not_isSome_iff_eq_none] at habsent
      rw [hm key, habsent]
      rfl
  · rw [if_neg (show (Operation.delete key).key ≠ other from hk)]
    split
    · change (m.values.erase key)[other]? = _
      rw [Std.TreeMap.getElem?_erase]
      simp [hk, hm other]
    · exact hm other

end Memory

namespace Engine

variable {n : Nat} {s : Engine × Disk} {v : Values}

/-- The data directory of a sound engine has these values. -/
def Holds (s : Engine × Disk) (v : Values) : Prop :=
  ∃ root h, s.1.Sound s.2 root h ∧ h.value = v

/-- The data directory is within its limits. -/
def Ready (s : Engine × Disk) : Prop := WithinLimits s.2 s.1.dir

/-- The data directory of a sound engine has these values, and has room for some more writes. -/
def HoldsFor (n : Nat) (s : Engine × Disk) (v : Values) : Prop :=
  ∃ root h w, s.1.Sound s.2 root h ∧ h.value = v ∧ h.Within (n + 2) w ∧ w + n * bound 4 ≤ bound 8 / 16

theorem HoldsFor.ready (hs : HoldsFor n s v) : Ready s := by
  obtain ⟨root, h, w, hs, -, hw, hsmall⟩ := hs
  exact hs.kept.withinLimits
    (hw.mono (Nat.le_add_left _ _) (Nat.le_trans (Nat.le_add_right _ _) hsmall))

theorem read_eq (hs : Holds s v) (key buffer : Bytes) :
    Backend.read key buffer s = (.ofValue? (v key) buffer, s) := by
  obtain ⟨root, h, hs, rfl⟩ := hs
  simp only [Backend.read, hs.get?]

theorem contains_eq (hs : Holds s v) (key : Bytes) :
    Backend.contains key s = .ok (v key).isSome s := by
  obtain ⟨root, h, hs, rfl⟩ := hs
  obtain ⟨e, d⟩ := s
  change liftResult (e.contains d key) (e, d) = _
  rw [hs.contains]
  rfl

theorem HoldsFor.holds (hs : HoldsFor n s v) : Holds s v := by
  obtain ⟨root, h, -, hs, hv, -⟩ := hs
  exact ⟨root, h, hs, hv⟩

end Engine

end KeyedStore
