import KeyedStore.Bytes

/-!
# Versions

What one place says about a key: that it has a value, or that it was deleted. A deletion hides
every older version.
-/

namespace KeyedStore

/-- A value, or the mark of a deletion. -/
inductive Version where
  | value (bytes : Bytes)
  | tombstone
deriving DecidableEq, Repr

namespace Version

/-- The live value, if there is one. -/
def live? : Version → Option Bytes
  | value bytes => some bytes
  | tombstone => none

/-- The number of bytes in the value; a tombstone has none. -/
def length : Version → Nat
  | value bytes => bytes.length
  | tombstone => 0

end Version

end KeyedStore
