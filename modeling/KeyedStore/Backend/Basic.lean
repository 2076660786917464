import KeyedStore.Error

/-!
# Backends

A backend keeps byte strings under byte-string keys. Reading copies the stored value into a
buffer of the caller, or states the size that it would take. A missing key is an answer and not
an error.
-/

namespace KeyedStore

/-- What became of a read into a buffer. -/
inductive ReadStatus where
  /-- The value was copied; it has this length. -/
  | found (length : Nat)
  /-- The value does not fit a buffer below this size. -/
  | tooSmall (required : Nat)
  | notFound
deriving DecidableEq, Repr

/-- What became of a removal. -/
inductive Removal where
  | removed
  | notFound
deriving DecidableEq, Repr

/-- A backend's answer to a read: the outcome, and the bytes that it laid over the front of the
buffer. -/
structure Reading where
  outcome : Except Error ReadStatus
  written : Bytes := []

/-- Types whose values keep byte strings under keys. -/
class Backend (β : Type) where
  /-- Reads the value of a key into a buffer. -/
  read (key buffer : Bytes) : β → Reading × β
  /-- Inserts a value, or replaces the one there is. -/
  write (key value : Bytes) : EStateM Error β Unit
  /-- Removes a key. -/
  remove (key : Bytes) : EStateM Error β Removal
  /-- Whether a key has a value. -/
  contains (key : Bytes) : EStateM Error β Bool

/-- The answer to a read of a present value: a copy if it fits the buffer, its size if not. -/
def Reading.ofValue (value buffer : Bytes) : Reading :=
  if value.length > buffer.length then { outcome := .ok (.tooSmall value.length) }
  else { outcome := .ok (.found value.length), written := value }

/-- The answer to a read of a value that may be missing. -/
def Reading.ofValue? (value? : Option Bytes) (buffer : Bytes) : Reading :=
  match value? with
  | some value => ofValue value buffer
  | none => { outcome := .ok .notFound }

end KeyedStore
