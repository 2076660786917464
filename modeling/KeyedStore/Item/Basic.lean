import KeyedStore.Item.Layout

/-!
# Items

An item owns one buffer. Its parts are read through the layout that the buffer itself describes,
so every accessor of a buffer without a readable header fails in the same way.
-/

namespace KeyedStore

/-- A buffer that holds, or is about to hold, an item. -/
structure Item where
  buffer : Bytes
deriving DecidableEq, Repr

namespace Item

def capacity (i : Item) : Nat := i.buffer.length

def layout (i : Item) : Except Error Layout := Layout.parse i.buffer

def total (i : Item) : Except Error Nat := return (← i.layout).total

def key (i : Item) : Except Error Bytes := return (← i.layout).key.slice i.buffer

def suffix (i : Item) : Except Error Bytes := return (← i.layout).suffix.slice i.buffer

def data (i : Item) : Except Error Bytes := return (← i.layout).data.slice i.buffer

def value (i : Item) : Except Error Bytes := do
  let data ← i.data
  return data.take (data.length - Header.terminator.length)

def flags (i : Item) : Except Error UInt32 := return (← Suffix.decode (← i.suffix)).1

/-- The whole item, without the unused end of the buffer. -/
def bytes (i : Item) : Except Error Bytes := return i.buffer.take (← i.total)

/-- Writes a value, which must have the length that the header states, and its terminator. -/
def setValue (i : Item) (value : Bytes) : Except Error Item := do
  let span := (← i.layout).data
  if span.length ≠ value.length + Header.terminator.length then
    throw (.valueLength (value.length + Header.terminator.length))
  return { buffer := span.replace (value ++ Header.terminator) i.buffer }

def fillData (i : Item) (byte : UInt8) : Except Error Item := do
  let span := (← i.layout).data
  return { buffer := span.replace (List.replicate span.length byte) i.buffer }

/-- The item as it is shown in a trace. -/
def describe (i : Item) : String :=
  let shown := match i.layout with
    | .ok l => s!"ntotal: {l.total}, key: " ++ Quoted.encode (Utf8.lossy (l.key.slice i.buffer))
    | .error _ => "ntotal: \"<unfilled>\""
  s!"Item \x7b capacity: {i.capacity}, " ++ shown ++ " \x7d"

end Item

end KeyedStore
