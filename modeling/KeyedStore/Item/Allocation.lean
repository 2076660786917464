import KeyedStore.Focus
import KeyedStore.Item.Basic
import KeyedStore.Item.Pool

/-!
# Allocating and releasing items

An item that fits a buffer of the pool lives in one, and a larger item in a buffer of its own.
Where a buffer goes when its item is released is decided by the header it then holds, not by how
it was obtained.
-/

namespace KeyedStore

namespace Pool

def obtain (total : Nat) : EStateM Error Pool Bytes := do
  let p ← get
  if total > p.bufferSize then liftResult (p.heap.allocate total) else acquire

/-- An item whose contents are to be read from elsewhere. -/
def allocRaw (total : Nat) : EStateM Error Pool Item := return { buffer := ← obtain total }

/-- An item for a key, with room for `dataLength` bytes of data: header, key, separator and suffix
are written, the data is left as the buffer had it. -/
def allocFresh (key : Bytes) (flags : UInt32) (dataLength : Nat) : EStateM Error Pool Item := do
  let (header, suffix) ← liftResult (Header.compute key.length flags dataLength)
  let buffer ← obtain header.total
  return { buffer := Bytes.overlay (header.encode ++ key ++ 0 :: suffix) buffer }

/-- Whether an item counts as pool-sized: by its total size if its header can be read, by the
length of its buffer otherwise. -/
def poolSized (p : Pool) (item : Item) : Bool :=
  match item.layout with
  | .ok layout => layout.total ≤ p.bufferSize
  | .error _ => item.capacity = p.bufferSize

/-- The pool after an item is released: a pool-sized buffer goes back if the pool takes it, any
other is dropped. -/
def reclaim (p : Pool) (item : Item) : Pool :=
  if p.poolSized item then (p.release? item.buffer).getD p else p

end Pool

end KeyedStore
