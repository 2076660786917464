import KeyedStore.Backend.Basic
import KeyedStore.Item.Allocation

/-!
# Item stores

Items over any backend. A read offers the backend a standard buffer first and, when that is too
small, one more buffer of exactly the size that the backend asks for. An item is handed out only
if the header in its buffer states the very length that the backend reports; on every other way
out the buffer is released.
-/

namespace KeyedStore

/-- A backend together with the pool that its items are allocated from. -/
structure Store (β : Type) where
  pool : Pool
  backend : β

/-- What became of a deletion. -/
inductive Deletion where
  | deleted
  | notFound
deriving DecidableEq, Repr

namespace Store

variable {α β : Type}

/-- The number of reads that one look-up makes at most. -/
def maxReads : Nat := 2

def onPool (m : EStateM Error Pool α) : EStateM Error (Store β) α :=
  focus Store.pool (fun pool s => { s with pool }) m

def onBackend (m : EStateM Error β α) : EStateM Error (Store β) α :=
  focus Store.backend (fun backend s => { s with backend }) m

def release (item : Item) : EStateM Error (Store β) Unit :=
  modify fun s => { s with pool := s.pool.reclaim item }

/-- Checks an item that the backend filled with `length` bytes before it is handed out. -/
def accept (item : Item) (length : Nat) : EStateM Error (Store β) Item := do
  match item.layout with
  | .ok layout =>
    if layout.total = length then return item
    release item
    throw (.malformedItem (.lengthMismatch layout.total length))
  | .error e =>
    release item
    throw e

variable [Backend β]

/-- Lets the backend fill the buffer of an item. -/
def fill (key : Bytes) (item : Item) : EStateM Error (Store β) (Item × Except Error ReadStatus) :=
  fun s =>
    let (reading, backend) := Backend.read key item.buffer s.backend
    let filled : Item := { buffer := Bytes.overlay reading.written item.buffer }
    .ok (filled, reading.outcome) { s with backend }

/-- Reads into `item`, with `retries` further buffers to try when it is too small. -/
def readInto (key : Bytes) : Nat → Item → EStateM Error (Store β) (Option Item)
  | retries, item => do
    let (item, outcome) ← fill key item
    match outcome with
    | .error e =>
      release item
      throw e
    | .ok (.found length) => return some (← accept item length)
    | .ok .notFound =>
      release item
      return none
    | .ok (.tooSmall required) =>
      release item
      match retries with
      | 0 => throw (.backend (.stillTooSmall item.capacity required))
      | retries + 1 =>
        if required ≤ item.capacity then
          throw (.backend (.notLarger required item.capacity))
        readInto key retries (← onPool (Pool.allocRaw required))

/-- The item stored under a key. It belongs to the caller, who should release it. -/
def get (key : Bytes) : EStateM Error (Store β) (Option Item) := do
  let standard := (← EStateM.get).pool.bufferSize
  readInto key (maxReads - 1) (← onPool (Pool.allocRaw standard))

def put (key : Bytes) (item : Item) : EStateM Error (Store β) Unit := do
  let bytes ← liftResult item.bytes
  onBackend (Backend.write key bytes)

def delete (key : Bytes) : EStateM Error (Store β) Deletion := do
  match ← onBackend (Backend.remove key) with
  | .removed => return .deleted
  | .notFound => return .notFound

/-- Whether a key is present; a backend that cannot tell counts as a no. -/
def contains (key : Bytes) : StateM (Store β) Bool := fun s =>
  match Backend.contains key s.backend with
  | .ok present backend => (present, { s with backend })
  | .error _ backend => (false, { s with backend })

/-- Stores a value with flags under a key in a fresh item, which is released again. -/
def set (key : Bytes) (flags : UInt32) (value : Bytes) : EStateM Error (Store β) Unit := do
  let item ← onPool (Pool.allocFresh key flags (value.length + Header.terminator.length))
  match item.setValue value with
  | .error e =>
    release item
    throw e
  | .ok item =>
    let stored ← outcome (put key item)
    release item
    liftResult stored

end Store

end KeyedStore
