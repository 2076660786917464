import KeyedStore.Backend.Basic
import Std.Data.TreeMap

/-!
# The backend in memory

A map from keys to values that nothing outlives. It never fails.
-/

namespace KeyedStore

/-- A map from keys to values. -/
structure Memory where
  values : Std.TreeMap Bytes Bytes := ∅

namespace Memory

def size (m : Memory) : Nat := m.values.size

def isEmpty (m : Memory) : Bool := m.values.isEmpty

/-- Removes a key, and says whether it was there. -/
def remove (key : Bytes) (m : Memory) : Removal × Memory :=
  if m.values.contains key then (.removed, { values := m.values.erase key }) else (.notFound, m)

instance : Backend Memory where
  read key buffer m := (.ofValue? m.values[key]? buffer, m)
  write key value m := .ok () { values := m.values.insert key value }
  remove key m := .ok (m.remove key).1 (m.remove key).2
  contains key m := .ok (m.values.contains key) m

end Memory

end KeyedStore
