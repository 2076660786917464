import KeyedStore.Version
import Std.Data.TreeMap

/-!
# Tables in memory

The latest writes, in the order of their keys, with a running count of the bytes in their keys and
values. A deleted key stays in the table as a tombstone.
-/

namespace KeyedStore

/-- The versions of the keys written lately, and the bytes that they take. -/
structure MemTable where
  entries : Std.TreeMap Bytes Version := ∅
  size : Nat := 0

namespace MemTable

def entrySize (key : Bytes) (version : Version) : Nat := key.length + version.length

/-- Inserts a version of a key, or replaces the one there is. -/
def insert (m : MemTable) (key : Bytes) (version : Version) : MemTable where
  entries := m.entries.insert key version
  size := m.size + entrySize key version - (m.entries[key]?.map (entrySize key)).getD 0

def put (m : MemTable) (key value : Bytes) : MemTable := m.insert key (.value value)

def delete (m : MemTable) (key : Bytes) : MemTable := m.insert key .tombstone

def get? (m : MemTable) (key : Bytes) : Option Version := m.entries[key]?

def count (m : MemTable) : Nat := m.entries.size

def isEmpty (m : MemTable) : Bool := m.entries.isEmpty

def isFull (m : MemTable) (limit : Nat) : Bool := limit ≤ m.size

def toList (m : MemTable) : List (Bytes × Version) := m.entries.toList

end MemTable

end KeyedStore
